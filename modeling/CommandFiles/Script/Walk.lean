import CommandFiles.Script.Outline

/-!
# Walking an outline

The imports and exports of a module are visited in the order of the text, those inside scopes
included. A visitor threads a state and may have effects of its own. The walk itself always goes on
to the end of the module: once a call has failed, the visitor is no longer called. Main statement:
the walk is the fold of the visitor over the list of all visits, up to the first failure.
-/

namespace CommandFiles.Script

/-- What is visited. -/
inductive Node where
  | imported (node : Import)
  | exported (node : NamedExport)
  | exportedDefault (node : DefaultExport)

/-- A visited node with the names bound by the scopes around it, the innermost scope first. -/
structure Visit where
  node : Node
  scopes : List (List String)

/-- Whether a name is bound where the node stands. -/
def Visit.binds (v : Visit) (name : String) : Bool := v.scopes.any (·.contains name)

/-! ## The walk -/

/-- A walk under way: the state of the visitor, the names bound by the scopes that are open, the
innermost first, and the failure of a call, if one has failed. -/
structure Walker (σ ε : Type) where
  state : σ
  scopes : List (List String) := []
  failure : Option ε := none

namespace Walker

variable {m : Type → Type} [Monad m] {σ ε : Type}

/-- Opens a scope. -/
def enter (names : List String) (w : Walker σ ε) : Walker σ ε :=
  { w with scopes := names :: w.scopes }

/-- Closes the innermost scope. -/
def leave (w : Walker σ ε) : Walker σ ε := { w with scopes := w.scopes.tail }

/-- Calls the visitor, unless a call has failed before. -/
def meet (call : Visit → σ → m (Except ε σ)) (w : Walker σ ε) (v : Visit) : m (Walker σ ε) :=
  match w.failure with
  | some _ => return w
  | none => do
    match ← call v w.state with
    | .ok state => return { w with state }
    | .error e => return { w with failure := some e }

/-- What a walk that has come to its end returns. -/
def outcome (w : Walker σ ε) : Except ε σ :=
  match w.failure with
  | some e => .error e
  | none => .ok w.state

end Walker

section Walk

variable {m : Type → Type} [Monad m] {σ ε : Type}

mutual

/-- Goes through an item, or through the items of a scope. -/
def walkItem (call : Visit → σ → m (Except ε σ)) : Item → Walker σ ε → m (Walker σ ε)
  | .imported node, w => w.meet call ⟨.imported node, w.scopes⟩
  | .exported node, w => w.meet call ⟨.exported node, w.scopes⟩
  | .exportedDefault node, w => w.meet call ⟨.exportedDefault node, w.scopes⟩
  | .scope names items, w => do
    let w ← walkItems call items (w.enter names)
    return w.leave

/-- Goes through items one after another. -/
def walkItems (call : Visit → σ → m (Except ε σ)) : List Item → Walker σ ε → m (Walker σ ε)
  | [], w => return w
  | item :: rest, w => do
    let w ← walkItem call item w
    walkItems call rest w

end

/-- Visits the imports and exports of a module with a visitor that has effects. -/
def Outline.traverse (o : Outline) (call : Visit → σ → m (Except ε σ)) (state : σ) :
    m (Except ε σ) := do
  let w ← walkItem call (.scope o.names o.items) { state }
  return w.outcome

end Walk

/-- Visits the imports and exports of a module. -/
def Outline.walk {σ ε : Type} (o : Outline) (visit : Visit → σ → Except ε σ) (state : σ) :
    Except ε σ :=
  Id.run (o.traverse (fun v s => pure (visit v s)) state)

/-! ## The visits -/

mutual

/-- The visits of an item. -/
def visitsOfItem (scopes : List (List String)) : Item → List Visit
  | .imported node => [⟨.imported node, scopes⟩]
  | .exported node => [⟨.exported node, scopes⟩]
  | .exportedDefault node => [⟨.exportedDefault node, scopes⟩]
  | .scope names items => visitsOfItems (names :: scopes) items

/-- The visits of items, in their order. -/
def visitsOfItems (scopes : List (List String)) : List Item → List Visit
  | [] => []
  | item :: rest => visitsOfItem scopes item ++ visitsOfItems scopes rest

end

/-- All visits of a module, in the order of the text. -/
def Outline.visits (o : Outline) : List Visit := visitsOfItems [o.names] o.items

theorem mem_visitsOfItems {v : Visit} {scopes : List (List String)} {items : List Item} :
    v ∈ visitsOfItems scopes items ↔ ∃ i ∈ items, v ∈ visitsOfItem scopes i := by
  induction items with
  | nil => simp [visitsOfItems]
  | cons i rest ih => simp [visitsOfItems, ih]

/-! ## The walk as a fold -/

section Fold

variable {m : Type → Type} [Monad m] [LawfulMonad m] {σ ε : Type}
  (call : Visit → σ → m (Except ε σ))

namespace Walker

/-- A walk under way in other scopes. -/
def inScopes (scopes : List (List String)) (w : Walker σ ε) : Walker σ ε := { w with scopes }

/-- A call does not depend on the scopes that are open, and leaves them open. -/
theorem meet_inScopes (scopes : List (List String)) (w : Walker σ ε) (v : Visit) :
    (w.inScopes scopes).meet call v = inScopes scopes <$> w.meet call v := by
  obtain ⟨state, _, failure⟩ := w
  cases failure with
  | some e => simp [meet, inScopes]
  | none =>
    simp only [meet, inScopes, map_eq_pure_bind, bind_assoc]
    refine bind_congr fun result => ?_
    cases result <;> simp

theorem foldlM_meet_inScopes (scopes : List (List String)) (visits : List Visit)
    (w : Walker σ ε) :
    visits.foldlM (meet call) (w.inScopes scopes) =
      inScopes scopes <$> visits.foldlM (meet call) w := by
  induction visits generalizing w with
  | nil => simp
  | cons v rest ih =>
    simp only [List.foldlM_cons, meet_inScopes, map_eq_pure_bind, bind_assoc, pure_bind, ih]

theorem foldlM_meet_scopes (visits : List Visit) (w : Walker σ ε) :
    inScopes w.scopes <$> visits.foldlM (meet call) w = visits.foldlM (meet call) w :=
  (foldlM_meet_inScopes call w.scopes visits w).symm

/-- Once a call has failed, nothing is called and nothing changes. -/
theorem foldlM_meet_of_failure {w : Walker σ ε} {e : ε} (h : w.failure = some e)
    (visits : List Visit) : visits.foldlM (meet call) w = pure w := by
  induction visits with
  | nil => rfl
  | cons v rest ih =>
    rw [List.foldlM_cons, meet, h]
    simp only [pure_bind]
    exact ih

/-- What comes of calls that each look for a failure before them is what comes of calls up to the
first failure. -/
theorem outcome_foldlM_meet (visits : List Visit) (state : σ) (scopes : List (List String)) :
    outcome <$> visits.foldlM (meet call) ⟨state, scopes, none⟩ =
      (visits.foldlM (fun s v => ExceptT.mk (call v s)) state).run := by
  induction visits generalizing state with
  | nil => simp [outcome]
  | cons v rest ih =>
    rw [List.foldlM_cons, List.foldlM_cons, ExceptT.run_bind, meet, ExceptT.run_mk]
    simp only [map_eq_pure_bind, bind_assoc]
    refine bind_congr fun result => ?_
    cases result with
    | ok state =>
      rw [pure_bind, ← map_eq_pure_bind]
      exact ih state
    | error e =>
      rw [pure_bind, foldlM_meet_of_failure call rfl, pure_bind]
      rfl

end Walker

mutual

theorem walkItem_eq_foldlM : ∀ (i : Item) (w : Walker σ ε),
    walkItem call i w = (visitsOfItem w.scopes i).foldlM (Walker.meet call) w
  | .imported _, w | .exported _, w | .exportedDefault _, w => by
    simp [walkItem, visitsOfItem]
  | .scope names items, w => by
    -- what is met in the scope leaves it open, so closing it leads back to the scopes before
    have hitems : walkItems call items (w.enter names) =
        (visitsOfItems (names :: w.scopes) items).foldlM (Walker.meet call)
          (w.inScopes (names :: w.scopes)) :=
      walkItems_eq_foldlM items (w.enter names)
    have hinside := Walker.foldlM_meet_inScopes call (names :: w.scopes)
      (visitsOfItems (names :: w.scopes) items) w
    have hafter := Walker.foldlM_meet_scopes call (visitsOfItems (names :: w.scopes) items) w
    rw [walkItem, hitems, visitsOfItem, hinside, ← hafter]
    simp only [map_eq_pure_bind, bind_assoc, pure_bind]
    rfl

theorem walkItems_eq_foldlM : ∀ (items : List Item) (w : Walker σ ε),
    walkItems call items w = (visitsOfItems w.scopes items).foldlM (Walker.meet call) w
  | [], w => rfl
  | item :: rest, w => by
    have hfirst := Walker.foldlM_meet_scopes call (visitsOfItem w.scopes item) w
    rw [walkItems, visitsOfItems, List.foldlM_append, walkItem_eq_foldlM item w, ← hfirst]
    simp only [map_eq_pure_bind, bind_assoc, pure_bind]
    exact bind_congr fun w' => walkItems_eq_foldlM rest (w'.inScopes w.scopes)

end

/-- A walk is the fold of the visitor over the visits, up to the first call that fails. -/
theorem Outline.traverse_eq_foldlM (o : Outline) (state : σ) :
    o.traverse call state =
      (o.visits.foldlM (fun s v => ExceptT.mk (call v s)) state).run := by
  rw [traverse, walkItem_eq_foldlM, ← map_eq_pure_bind]
  exact Walker.outcome_foldlM_meet call o.visits state []

end Fold

/-- A walk without effects is a fold as well. -/
theorem Outline.walk_eq_foldlM {σ ε : Type} (visit : Visit → σ → Except ε σ) (o : Outline)
    (state : σ) : o.walk visit state = o.visits.foldlM (fun s v => visit v s) state := by
  rw [walk, traverse_eq_foldlM]
  induction o.visits generalizing state with
  | nil => rfl
  | cons v rest ih =>
    rw [List.foldlM_cons, List.foldlM_cons]
    cases visit v state with
    | error e => rfl
    | ok state => exact ih state

/-- The exported variable with a given name. -/
def NamedExport.variableNamed? (e : NamedExport) (name : String) : Option Declarator :=
  e.declarators.find? fun d => d.name == some name

end CommandFiles.Script
