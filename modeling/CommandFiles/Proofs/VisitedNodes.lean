import CommandFiles.Script.Walk

/-! # Which nodes a walk visits

A place in an outline is the way to an item: a position among the items of every scope on it. A walk
visits the nodes of all places, in the order of their places, and it ends as the fold of its calls
ends: with the first call that fails. -/
namespace CommandFiles.Script

/-! ## Places -/

/-- The visit of the node at a place in an item. -/
def Item.visitAt? (scopes : List (List String)) : Item → List Nat → Option Visit
  | .imported node, [] => some ⟨.imported node, scopes⟩
  | .exported node, [] => some ⟨.exported node, scopes⟩
  | .exportedDefault node, [] => some ⟨.exportedDefault node, scopes⟩
  | .scope names items, i :: place =>
    match items[i]? with
    | some item => item.visitAt? (names :: scopes) place
    | none => none
  | _, _ => none

/-- The visit of the node at a place in a module. -/
def Outline.visitAt? (o : Outline) (place : List Nat) : Option Visit :=
  Item.visitAt? [] (.scope o.names o.items) place

mutual

/-- The places of the nodes in an item, in their order. -/
def Item.places : Item → List (List Nat)
  | .scope _ items => placesFrom 0 items
  | _ => [[]]

/-- The places of the nodes in items whose positions begin at a number. -/
def placesFrom (n : Nat) : List Item → List (List Nat)
  | [] => []
  | item :: rest => item.places.map (n :: ·) ++ placesFrom (n + 1) rest

end

variable {scopes : List (List String)} {names : List String} {items : List Item} {item : Item}
  {place : List Nat} {n : Nat}

theorem mem_placesFrom : place ∈ placesFrom n items ↔
    ∃ k item below, items[k]? = some item ∧ below ∈ item.places ∧ place = (n + k) :: below := by
  induction items generalizing n with
  | nil => simp [placesFrom]
  | cons first rest ih =>
    simp only [placesFrom, List.mem_append, List.mem_map, ih]
    constructor
    · intro h
      obtain ⟨below, hbelow, rfl⟩ | ⟨k, item, below, hitem, hbelow, rfl⟩ := h
      · exact ⟨0, first, below, rfl, hbelow, rfl⟩
      · exact ⟨k + 1, item, below, hitem, hbelow, by congr 1; omega⟩
    · intro h
      obtain ⟨k, item, below, hitem, hbelow, rfl⟩ := h
      cases k with
      | zero => exact .inl ⟨below, Option.some.inj hitem ▸ hbelow, rfl⟩
      | succ k => exact .inr ⟨k, item, below, hitem, hbelow, by congr 1; omega⟩

/-- There is a node just at the listed places. -/
theorem mem_places : place ∈ item.places ↔ (item.visitAt? scopes place).isSome = true := by
  induction place generalizing item scopes with
  | nil =>
    cases item with
    | scope names items => simp [Item.places, Item.visitAt?, mem_placesFrom]
    | _ => simp [Item.places, Item.visitAt?]
  | cons i below ih =>
    cases item with
    | scope names items =>
      rw [Item.places, Item.visitAt?, mem_placesFrom]
      constructor
      · intro h
        obtain ⟨k, item, _, hitem, hbelow, heq⟩ := h
        obtain ⟨rfl, rfl⟩ := List.cons.inj heq
        rw [Nat.zero_add, hitem]
        exact ih.mp hbelow
      · intro h
        cases hitem : items[i]? with
        | none => simp [hitem] at h
        | some item =>
          rw [hitem] at h
          exact ⟨i, item, below, hitem, ih.mpr h, by rw [Nat.zero_add]⟩
    | _ => simp [Item.places, Item.visitAt?]

mutual

/-- The places are listed in order, each once. -/
theorem pairwise_places : ∀ item : Item, item.places.Pairwise (· < ·)
  | .imported _ | .exported _ | .exportedDefault _ => List.pairwise_singleton ..
  | .scope _ items => pairwise_placesFrom 0 items

theorem pairwise_placesFrom (n : Nat) : ∀ items : List Item,
    (placesFrom n items).Pairwise (· < ·)
  | [] => List.Pairwise.nil
  | item :: rest => by
    rw [placesFrom, List.pairwise_append]
    refine ⟨?_, pairwise_placesFrom (n + 1) rest, ?_⟩
    · rw [List.pairwise_map]
      exact (pairwise_places item).imp fun h => List.cons_lt_cons_self.mpr h
    · intro p hp q hq
      obtain ⟨below, -, rfl⟩ := List.mem_map.mp hp
      obtain ⟨k, _, _, -, -, rfl⟩ := mem_placesFrom.mp hq
      exact List.cons_lt_cons_iff.mpr (.inl (by omega))

end

mutual

/-- The visits are those of the listed places, one after another. -/
theorem visitsOfItem_eq_places (scopes : List (List String)) : ∀ item : Item,
    (visitsOfItem scopes item).map some = item.places.map (item.visitAt? scopes)
  | .imported _ | .exported _ | .exportedDefault _ => rfl
  | .scope names items => visitsOfItems_eq_places scopes names [] items

theorem visitsOfItems_eq_places (scopes : List (List String)) (names : List String)
    (before : List Item) : ∀ items : List Item,
    (visitsOfItems (names :: scopes) items).map some =
      (placesFrom before.length items).map
        ((Item.scope names (before ++ items)).visitAt? scopes)
  | [] => rfl
  | item :: rest => by
    have hitem : ∀ below, (Item.scope names (before ++ item :: rest)).visitAt? scopes
        (before.length :: below) = item.visitAt? (names :: scopes) below := by
      intro below
      simp [Item.visitAt?]
    have hrest := visitsOfItems_eq_places scopes names (before ++ [item]) rest
    rw [List.append_assoc, List.length_append] at hrest
    rw [visitsOfItems, placesFrom, List.map_append, List.map_append, List.map_map,
      visitsOfItem_eq_places (names :: scopes) item]
    congr 1
    exact List.map_congr_left fun below _ => (hitem below).symm

end

/-! ## Calls -/

section Calls

variable {σ ε : Type}

/-- A visitor that notes its visits. -/
def noting (visit : Visit → σ → Except ε σ) (v : Visit) (state : σ) :
    StateM (List Visit) (Except ε σ) := do
  modify (· ++ [v])
  return visit v state

/-- How a visitor is called along visits: at all of them, or at those up to the first failure. -/
inductive CalledAlong (visit : Visit → σ → Except ε σ) (state : σ) (visits : List Visit) :
    Except ε σ → List Visit → Prop where
  | all {last : σ} : visits.foldlM (fun s v => visit v s) state = .ok last →
      CalledAlong visit state visits (.ok last) visits
  | upTo {before after : List Visit} {v : Visit} {s : σ} {e : ε} :
      visits = before ++ v :: after → before.foldlM (fun s v => visit v s) state = .ok s →
      visit v s = .error e → CalledAlong visit state visits (.error e) (before ++ [v])

theorem calledAlong_cons {visit : Visit → σ → Except ε σ} {v : Visit} {state next : σ}
    {rest called : List Visit} {result : Except ε σ} (hv : visit v state = .ok next)
    (h : CalledAlong visit next rest result called) :
    CalledAlong visit state (v :: rest) result (v :: called) := by
  have hfold (visits : List Visit) : (v :: visits).foldlM (fun s v => visit v s) state =
      visits.foldlM (fun s v => visit v s) next := by
    rw [List.foldlM_cons, hv]
    rfl
  cases h with
  | all hlast => exact .all ((hfold rest).trans hlast)
  | @upTo before after w s e hsplit hbefore he =>
    exact .upTo (by rw [hsplit, List.cons_append]) ((hfold before).trans hbefore) he

theorem run_run_noting_bind (visit : Visit → σ → Except ε σ) (v : Visit) (state : σ)
    (k : σ → ExceptT ε (StateM (List Visit)) σ) (noted : List Visit) :
    ((ExceptT.mk (noting visit v state) >>= k).run).run noted =
      match visit v state with
      | .ok next => ((k next).run).run (noted ++ [v])
      | .error e => (.error e, noted ++ [v]) := by
  cases h : visit v state <;> simp [noting, h] <;> rfl

/-- A visitor that notes its visits notes those at which it is called. -/
theorem run_noting (visit : Visit → σ → Except ε σ) (visits : List Visit) (state : σ)
    (noted : List Visit) :
    ∃ called, ((visits.foldlM (fun s v => ExceptT.mk (noting visit v s)) state).run).run noted =
        (visits.foldlM (fun s v => visit v s) state, noted ++ called) ∧
      CalledAlong visit state visits (visits.foldlM (fun s v => visit v s) state) called := by
  induction visits generalizing state noted with
  | nil => exact ⟨[], by rw [List.append_nil]; rfl, .all rfl⟩
  | cons v rest ih =>
    cases hv : visit v state with
    | error e =>
      have hfold : (v :: rest).foldlM (fun s v => visit v s) state = .error e := by
        rw [List.foldlM_cons, hv]
        rfl
      have hcalled : CalledAlong visit state (v :: rest) (.error e) ([] ++ [v]) :=
        .upTo rfl rfl hv
      rw [hfold]
      refine ⟨[v], ?_, hcalled⟩
      rw [List.foldlM_cons, run_run_noting_bind, hv]
    | ok next =>
      have hfold : (v :: rest).foldlM (fun s v => visit v s) state =
          rest.foldlM (fun s v => visit v s) next := by
        rw [List.foldlM_cons, hv]
        rfl
      obtain ⟨called, hrun, hcalled⟩ := ih next (noted ++ [v])
      rw [hfold]
      refine ⟨v :: called, ?_, calledAlong_cons hv hcalled⟩
      rw [List.foldlM_cons, run_run_noting_bind, hv]
      rw [List.append_assoc] at hrun
      exact hrun

end Calls

/-- **A walk is a fold over the nodes of a module, up to the first call that fails.** The nodes of
all places are visited, those in scopes included, each once and in the order of the text; the
visitor is called as in a fold that ends with its first failure, whatever effects it has. -/
theorem Outline.walk_folds_nodes (o : Outline) :
    (∃ places : List (List Nat), places.Pairwise (· < ·) ∧
      (∀ place, place ∈ places ↔ (o.visitAt? place).isSome = true) ∧
      o.visits.map some = places.map o.visitAt?) ∧
    (∀ (m : Type → Type) [Monad m] [LawfulMonad m] (σ ε : Type)
      (call : Visit → σ → m (Except ε σ)) (state : σ), o.traverse call state =
        (o.visits.foldlM (fun s v => ExceptT.mk (call v s)) state).run) ∧
    ∀ (σ ε : Type) (visit : Visit → σ → Except ε σ) (state : σ),
      ∃ called, (o.traverse (noting visit) state).run [] = (o.walk visit state, called) ∧
        CalledAlong visit state o.visits (o.walk visit state) called := by
  refine ⟨⟨Item.places (.scope o.names o.items), pairwise_places _, fun _ => mem_places,
    visitsOfItem_eq_places [] (.scope o.names o.items)⟩,
    fun m _ _ σ ε call state => o.traverse_eq_foldlM call state, ?_⟩
  intro σ ε visit state
  rw [o.traverse_eq_foldlM, o.walk_eq_foldlM]
  exact run_noting visit o.visits state []

/-- An import, and three exports of which one lies in a scope. -/
def nestedExports : Outline :=
  ⟨3, ["a", "Inner"], [.imported ⟨1, "pkg", ["a"]⟩, .exported ⟨2, []⟩,
    .scope ["b"] [.exported ⟨3, []⟩], .exportedDefault ⟨5, none⟩]⟩

/-- Counts nodes, and fails at those for which a name is bound. -/
def countOutside (name : String) (v : Visit) (count : Nat) : Except String Nat :=
  if v.binds name then .error name else .ok (count + 1)

theorem Outline.walk_folds_nodes_of_nested :
    nestedExports.traverse (noting (countOutside "b")) 0 =
        (nestedExports.visits.foldlM
          (fun s v => ExceptT.mk (noting (countOutside "b") v s)) 0).run ∧
      nestedExports.walk (countOutside "b") 0 = .error "b" ∧
      nestedExports.walk (countOutside "c") 0 = .ok 4 :=
  ⟨nestedExports.walk_folds_nodes.2.1 (StateM (List Visit)) Nat String
    (noting (countOutside "b")) 0, rfl, rfl⟩

end CommandFiles.Script
