import CommandFiles.Proofs.ObjectUnion
import Mathlib.Data.Finset.Card

/-! # What a record keeps of its history

A record is made by putting values under names and by taking over what other records hold, and each
of those was made in the same way. Whatever was done, the record is the one that all values make
that were ever put in, one after another, those behind the records taken over among them: its names
stand in the order in which they came first, and each has the value that came last. -/
namespace CommandFiles

/-- A change of a record: a value is put under a name, or all that another record holds is taken
over. That record has a history of its own. -/
inductive Edit (α : Type) where
  | insert (key : String) (value : α)
  | extend (history : List (Edit α))

namespace Edit

variable {α : Type}

mutual

/-- All that is put into a record by a change, in its order. -/
def insertions : Edit α → List (String × α)
  | insert key value => [(key, value)]
  | extend history => insertionsOf history

/-- All that is put into a record by a history. -/
def insertionsOf : List (Edit α) → List (String × α)
  | [] => []
  | e :: rest => insertions e ++ insertionsOf rest

end

end Edit

namespace Record

variable {α : Type} {r : Record α} {es : List (String × α)} {name : String} {value : α}

mutual

/-- The record after a change. -/
def apply : Edit α → Record α → Record α
  | .insert key value, r => r.insert key value
  | .extend history, r => r.extend (replay history empty)

/-- The record after a history. -/
def replay : List (Edit α) → Record α → Record α
  | [], r => r
  | e :: rest, r => replay rest (apply e r)

end

/-- The record that a history makes from the beginning. -/
def ofHistory (history : List (Edit α)) : Record α := replay history empty

/-! ## One insertion after another -/

mutual

theorem apply_eq_insertAll (r : Record α) : ∀ e : Edit α, apply e r = r.insertAll e.insertions
  | .insert key value => by
    rw [apply, Edit.insertions]
    rfl
  | .extend history => by
    rw [apply, Edit.insertions, replay_eq_insertAll empty history]
    exact extend_ofList r (Edit.insertionsOf history)

/-- A record that is taken over need not be made first. -/
theorem replay_eq_insertAll (r : Record α) :
    ∀ history : List (Edit α), replay history r = r.insertAll (Edit.insertionsOf history)
  | [] => by
    rw [replay, Edit.insertionsOf]
    rfl
  | e :: rest => by
    rw [replay, Edit.insertionsOf, insertAll_append, apply_eq_insertAll r e,
      replay_eq_insertAll _ rest]

end

theorem ofHistory_eq (history : List (Edit α)) :
    ofHistory history = ofList (Edit.insertionsOf history) :=
  replay_eq_insertAll empty history

theorem ofList_concat (es : List (String × α)) (e : String × α) :
    ofList (es ++ [e]) = (ofList es).insert e.1 e.2 :=
  insertAll_append empty es [e]

/-- Whether a record is what is left of insertions: their names in the order of their first
occurrences, each with its last value. -/
structure KeepsOf (r : Record α) (inserted : List (String × α)) : Prop where
  nodup : r.keys.Nodup
  mem_keys : ∀ name, name ∈ r.keys ↔ name ∈ inserted.map Prod.fst
  inOrder : r.keys.Pairwise fun name other =>
    (inserted.map Prod.fst).idxOf name < (inserted.map Prod.fst).idxOf other
  get?_eq_some : ∀ name value, r.get? name = some value ↔
    ∃ before after, inserted = before ++ (name, value) :: after ∧ name ∉ after.map Prod.fst
  get?_eq_none : ∀ name, r.get? name = none ↔ name ∉ inserted.map Prod.fst
  size : r.size = (inserted.map Prod.fst).toFinset.card

/-! ## Names and values -/

theorem mem_keys_ofList (es : List (String × α)) (name : String) :
    name ∈ (ofList es).keys ↔ name ∈ es.map Prod.fst := by
  induction es using List.reverseRecOn with
  | nil => exact Iff.rfl
  | append_singleton es e ih =>
    rw [ofList_concat, keys_insert, List.map_append, List.map_singleton, List.mem_append, ← ih,
      List.mem_singleton]
    split
    · next hold =>
      constructor
      · exact Or.inl
      · rintro (h | rfl)
        · exact h
        · exact hold
    · rw [List.mem_append, List.mem_singleton]

/-- A name that comes again keeps its place, and a new one comes behind all others. -/
theorem pairwise_keys_ofList (es : List (String × α)) :
    (ofList es).keys.Pairwise fun name other =>
      (es.map Prod.fst).idxOf name < (es.map Prod.fst).idxOf other := by
  induction es using List.reverseRecOn with
  | nil => exact List.Pairwise.nil
  | append_singleton es e ih =>
    have hfirst : ∀ name ∈ (ofList es).keys,
        (es.map Prod.fst ++ [e.1]).idxOf name = (es.map Prod.fst).idxOf name := by
      intro name hname
      exact List.idxOf_append_of_mem ((mem_keys_ofList es name).mp hname)
    have hold : (ofList es).keys.Pairwise fun name other =>
        (es.map Prod.fst ++ [e.1]).idxOf name < (es.map Prod.fst ++ [e.1]).idxOf other := by
      refine ih.imp_of_mem ?_
      intro name other hname hother hlt
      rwa [hfirst name hname, hfirst other hother]
    rw [ofList_concat, keys_insert, List.map_append, List.map_singleton]
    split
    · exact hold
    · next hnew =>
      refine List.pairwise_append.mpr ⟨hold, List.pairwise_singleton _ _, ?_⟩
      intro name hname other hother
      obtain rfl := List.mem_singleton.mp hother
      have hlt : (es.map Prod.fst).idxOf name < (es.map Prod.fst).length :=
        List.idxOf_lt_length_iff.mpr ((mem_keys_ofList es name).mp hname)
      rw [hfirst name hname, List.idxOf_append_of_notMem (mt (mem_keys_ofList es e.1).mpr hnew)]
      omega

theorem forall_ne_iff (es : List (String × α)) (name : String) :
    (∀ e ∈ es, (name != e.1) = true) ↔ name ∉ es.map Prod.fst := by
  constructor
  · intro h hmem
    obtain ⟨e, he, rfl⟩ := List.mem_map.mp hmem
    simpa using h e he
  · intro h e he
    rw [bne_iff_ne]
    rintro rfl
    exact h (List.mem_map_of_mem he)

/-- The value under a name is the one that was put there last. -/
theorem get?_ofList_eq_some : (ofList es).get? name = some value ↔
    ∃ before after, es = before ++ (name, value) :: after ∧ name ∉ after.map Prod.fst := by
  have hlast : (ofList es).get? name = es.reverse.lookup name := by
    rw [ofList, get?_insertAll]
    exact Option.or_none
  rw [hlast, List.lookup_eq_some_iff]
  constructor
  · rintro ⟨after, before, hes, hafter⟩
    refine ⟨before.reverse, after.reverse, by simpa using congrArg List.reverse hes, ?_⟩
    rw [← forall_ne_iff]
    simpa using hafter
  · rintro ⟨before, after, rfl, hafter⟩
    rw [← forall_ne_iff] at hafter
    exact ⟨after.reverse, before.reverse, by simp, by simpa using hafter⟩

theorem get?_eq_none_iff : r.get? name = none ↔ name ∉ r.keys := by
  rw [get?, List.lookup_eq_none_iff, forall_ne_iff]
  rfl

theorem keepsOf_ofList (es : List (String × α)) : KeepsOf (ofList es) es where
  nodup := nodup_ofList es
  mem_keys := mem_keys_ofList es
  inOrder := pairwise_keys_ofList es
  get?_eq_some _ _ := get?_ofList_eq_some
  get?_eq_none name := by rw [get?_eq_none_iff, mem_keys_ofList]
  size := by
    have hnames : (ofList es).keys.toFinset = (es.map Prod.fst).toFinset := by
      ext name
      rw [List.mem_toFinset, List.mem_toFinset, mem_keys_ofList]
    rw [← hnames, List.toFinset_card_of_nodup (nodup_ofList es), keys, List.length_map]
    rfl

/-! ## Histories -/

/-- A record that was made may be taken over at once or piece by piece. -/
theorem extend_ofHistory (r : Record α) (history : List (Edit α)) :
    r.extend (ofHistory history) = replay history r := by
  rw [ofHistory_eq, extend_ofList, replay_eq_insertAll]

theorem ofHistory_append (first second : List (Edit α)) :
    (ofHistory first).extend (ofHistory second) = ofHistory (first ++ second) := by
  have happend : Edit.insertionsOf (first ++ second) =
      Edit.insertionsOf first ++ Edit.insertionsOf second := by
    induction first with
    | nil => rfl
    | cons e rest ih => rw [List.cons_append, Edit.insertionsOf, ih, Edit.insertionsOf,
        List.append_assoc]
  rw [extend_ofHistory, replay_eq_insertAll, ofHistory_eq, ofHistory_eq, happend]
  exact (insertAll_append empty _ _).symm

/-- **A record is what its history left of the values.** Whatever values were put into it and
whatever records were taken over, each with a history of its own: the names are those of all
insertions, each once and in the order in which they came first, the value under each is the one
that came last, and there are as many as there are different names. Records laid over each other
may be put together in any grouping. -/
theorem ofHistory_keeps (history : List (Edit α)) :
    KeepsOf (ofHistory history) (Edit.insertionsOf history) ∧
    ∀ second third : List (Edit α),
      ((ofHistory history).extend (ofHistory second)).extend (ofHistory third) =
        (ofHistory history).extend ((ofHistory second).extend (ofHistory third)) := by
  refine ⟨ofHistory_eq history ▸ keepsOf_ofList _, ?_⟩
  intro second third
  rw [ofHistory_append, ofHistory_append, ofHistory_append, ofHistory_append, List.append_assoc]

example : (ofHistory [.insert "a" 1, .insert "b" 2,
    .extend [.insert "c" 3, .insert "a" 4, .insert "c" 5]]).entries =
      [("a", 4), ("b", 2), ("c", 5)] := by
  decide

end Record

end CommandFiles
