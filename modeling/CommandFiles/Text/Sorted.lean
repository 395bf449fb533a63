/-!
# Lists in the order of names

Sorts lists by a name that every item has. Items with one name keep their order. Main statements:
sorting loses and adds nothing, and afterwards the names do not decrease.
-/

namespace CommandFiles.Text

variable {α : Type}

/-- Puts an item before the first one with a name that is not smaller. -/
def insertOn (name : α → String) (a : α) : List α → List α
  | [] => [a]
  | b :: rest => if name b < name a then b :: insertOn name a rest else a :: b :: rest

/-- Sorts a list by names. -/
def sortOn (name : α → String) (items : List α) : List α := items.foldr (insertOn name) []

theorem perm_insertOn (name : α → String) (a : α) (items : List α) :
    (insertOn name a items).Perm (a :: items) := by
  induction items with
  | nil => exact List.Perm.refl _
  | cons b rest ih =>
    simp only [insertOn]
    split
    · exact (List.Perm.cons b ih).trans (List.Perm.swap a b rest)
    · exact List.Perm.refl _

theorem perm_sortOn (name : α → String) (items : List α) :
    (sortOn name items).Perm items := by
  induction items with
  | nil => exact List.Perm.refl _
  | cons a rest ih => exact (perm_insertOn name a _).trans (List.Perm.cons a ih)

@[simp] theorem mem_sortOn {name : α → String} {items : List α} {a : α} :
    a ∈ sortOn name items ↔ a ∈ items :=
  (perm_sortOn name items).mem_iff

theorem pairwise_insertOn {name : α → String} {a : α} {items : List α}
    (h : items.Pairwise fun x y => name x ≤ name y) :
    (insertOn name a items).Pairwise fun x y => name x ≤ name y := by
  induction items with
  | nil => simp [insertOn]
  | cons b rest ih =>
    obtain ⟨hb, hrest⟩ := List.pairwise_cons.1 h
    simp only [insertOn]
    split
    · next hlt =>
      refine List.pairwise_cons.2 ⟨fun x hx => ?_, ih hrest⟩
      rcases List.mem_cons.1 ((perm_insertOn name a rest).mem_iff.1 hx) with rfl | hx
      · exact String.not_lt.1 fun hc => String.lt_irrefl _ (String.lt_trans hc hlt)
      · exact hb x hx
    · next hge =>
      have hab : name a ≤ name b := String.not_lt.1 hge
      refine List.pairwise_cons.2 ⟨fun x hx => ?_, h⟩
      rcases List.mem_cons.1 hx with rfl | hx
      · exact hab
      · exact String.le_trans hab (hb x hx)

theorem pairwise_sortOn (name : α → String) (items : List α) :
    (sortOn name items).Pairwise fun x y => name x ≤ name y := by
  induction items with
  | nil => exact List.Pairwise.nil
  | cons a rest ih => exact pairwise_insertOn ih

end CommandFiles.Text
