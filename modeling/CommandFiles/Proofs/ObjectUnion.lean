import CommandFiles.Proofs.LiteralFaults
import CommandFiles.Proofs.LoadedCommands
import Mathlib.Data.List.Induction

/-! # Object literals laid one over the other

What a property adds to an object does not depend on the object: it is a list of entries, and a
literal comes to all of them inserted in their order. So a literal in two parts comes to the object
of the first part extended by the object of the second one, an object literal that is spread out can
be replaced by its properties, and the literals that a module exports under one name come to their
objects, each laid over those before it. -/
namespace CommandFiles

instance : LawfulMonad Logged := by
  refine LawfulMonad.mk' Logged (fun a => ?_) (fun a f => rfl) fun a f g => ?_
  · change Logged.mk a.value (a.warnings ++ []) = a
    rw [List.append_nil]
  · exact congrArg (Logged.mk _) (List.append_assoc ..)

namespace Record

variable {α : Type} {r : Record α} {es : List (String × α)} {key other : String}

theorem insertAll_append (r : Record α) (es es' : List (String × α)) :
    r.insertAll (es ++ es') = (r.insertAll es).insertAll es' :=
  List.foldl_append

theorem insertInto_same (key : String) (value value' : α) (es : List (String × α)) :
    insertInto key value (insertInto key value' es) = insertInto key value es := by
  induction es with
  | nil => simp [insertInto]
  | cons e rest ih =>
    obtain ⟨k, v⟩ := e
    by_cases h : k = key
    · simp [insertInto, h]
    · simp [insertInto, h, ih]

/-- A name that is there already keeps its place, so it does not matter whether it gets its value
before or after another name. -/
theorem insertInto_comm (hne : other ≠ key) (value value' : α) :
    ∀ {es : List (String × α)}, key ∈ es.map Prod.fst →
      insertInto key value (insertInto other value' es) =
        insertInto other value' (insertInto key value es)
  | [], h => nomatch h
  | (k, v) :: rest, h => by
    by_cases hk : k = key
    · simp [insertInto, hk, hne.symm]
    · have hrest : key ∈ rest.map Prod.fst :=
        (List.mem_cons.mp h).resolve_left fun heq => hk heq.symm
      by_cases ho : k = other
      · simp [insertInto, ho, hne]
      · simp [insertInto, hk, ho, insertInto_comm hne value value' hrest]

theorem insertAll_insert (hnew : key ∉ es.map Prod.fst) (value : α) (hold : key ∈ r.keys) :
    (r.insertAll es).insert key value = (r.insert key value).insertAll es := by
  induction es generalizing r with
  | nil => rfl
  | cons e rest ih =>
    obtain ⟨hne, hrest⟩ := not_or.mp (mt List.mem_cons.mpr hnew)
    have hkept : key ∈ (r.insert e.1 e.2).keys := by
      rw [keys_insert]
      split
      · exact hold
      · exact List.mem_append_left _ hold
    have hcomm : (r.insert e.1 e.2).insert key value = (r.insert key value).insert e.1 e.2 :=
      congrArg Record.mk (insertInto_comm (Ne.symm hne) value e.2 hold)
    calc ((r.insert e.1 e.2).insertAll rest).insert key value
      _ = ((r.insert e.1 e.2).insert key value).insertAll rest := ih hrest hkept
      _ = ((r.insert key value).insert e.1 e.2).insertAll rest := by rw [hcomm]

theorem insertAll_insertInto (hnodup : (es.map Prod.fst).Nodup) (key : String) (value : α)
    (r : Record α) : r.insertAll (insertInto key value es) = (r.insertAll es).insert key value := by
  induction es generalizing r with
  | nil => rfl
  | cons e rest ih =>
    obtain ⟨k, v⟩ := e
    obtain ⟨hnew, hrest⟩ := List.nodup_cons.mp hnodup
    by_cases h : k = key
    · subst h
      have hsame : (r.insert k v).insert k value = r.insert k value :=
        congrArg Record.mk (insertInto_same k value v r.entries)
      have hold : k ∈ (r.insert k v).keys := by
        rw [keys_insert]
        split
        · assumption
        · exact List.mem_append_right _ (List.mem_singleton_self k)
      rw [insertInto, if_pos rfl]
      calc (r.insert k value).insertAll rest
        _ = ((r.insert k v).insert k value).insertAll rest := by rw [hsame]
        _ = ((r.insert k v).insertAll rest).insert k value := (insertAll_insert hnew value hold).symm
    · rw [insertInto, if_neg h]
      exact ih hrest (r.insert k v)

theorem nodup_ofList (es : List (String × α)) : (ofList es).keys.Nodup :=
  nodup_insertAll (r := empty) List.nodup_nil es

/-- Entries can be collected in a record of their own first. -/
theorem extend_ofList (r : Record α) (es : List (String × α)) :
    r.extend (ofList es) = r.insertAll es := by
  induction es using List.reverseRecOn with
  | nil => rfl
  | append_singleton es e ih =>
    have hlast : ofList (es ++ [e]) = (ofList es).insert e.1 e.2 := insertAll_append empty es [e]
    calc r.extend (ofList (es ++ [e]))
      _ = r.insertAll (insertInto e.1 e.2 (ofList es).entries) := by rw [hlast]; rfl
      _ = (r.extend (ofList es)).insert e.1 e.2 := insertAll_insertInto (nodup_ofList es) _ _ r
      _ = r.insertAll (es ++ [e]) := by rw [ih, insertAll_append]; rfl

/-- Names stand in the order of their first occurrence. -/
theorem keys_extend {other : Record α} (hnodup : other.keys.Nodup) (r : Record α) :
    (r.extend other).keys = r.keys ++ other.keys.filter fun name => name ∉ r.keys := by
  obtain ⟨es⟩ := other
  change (r.insertAll es).keys = r.keys ++ (es.map Prod.fst).filter fun name => name ∉ r.keys
  change (es.map Prod.fst).Nodup at hnodup
  induction es generalizing r with
  | nil => simp [insertAll]
  | cons e rest ih =>
    obtain ⟨hnew, hrest⟩ := List.nodup_cons.mp hnodup
    refine (ih (r.insert e.1 e.2) hrest).trans ?_
    rw [keys_insert, List.map_cons]
    by_cases h : e.1 ∈ r.keys
    · rw [if_pos h, List.filter_cons_of_neg (by simpa using h)]
    · rw [if_neg h, List.filter_cons_of_pos (by simpa using h), List.append_assoc]
      refine congrArg (r.keys ++ e.1 :: ·) (List.filter_congr fun name hname => ?_)
      have hne : name ≠ e.1 := fun heq => hnew (heq ▸ hname)
      simp [hne]

/-- Of two values under a name the later one counts. -/
theorem get?_extend {other : Record α} (hnodup : other.keys.Nodup) (r : Record α) (name : String) :
    (r.extend other).get? name = (other.get? name).or (r.get? name) := by
  have hreverse : (other.entries.reverse.map Prod.fst).Nodup :=
    ((List.reverse_perm _).map Prod.fst).symm.nodup hnodup
  rw [extend, get?_insertAll, lookup_of_perm (List.reverse_perm _) hreverse]
  rfl

end Record

namespace Literal

open CommandFiles.Script

variable {s : Scene}

/-! ## What properties add -/

/-- The entries that a spread argument adds. -/
def spreadEntries : Value → List (String × Value)
  | .object fields => fields.entries
  | .array items => items.zipIdx.map fun (v, i) => (toString i, v)
  | .string s => s.toList.zipIdx.map fun (c, i) => (toString i, .string (String.singleton c))
  | _ => []

theorem spreadInto_eq (object : Record Value) (v : Value) :
    spreadInto object v = object.insertAll (spreadEntries v) := by
  cases v <;> rfl

/-- The entries that a property adds to any object. -/
def addedBy (s : Scene) : Property → Eval (List (String × Value))
  | .value line key value => do
    let k ← evalKey s line key
    match k with
    | none => return []
    | some name => do
      let v ← guarded s value.line (eval s value)
      return [(name, v)]
  | .method line key text => do
    let k ← evalKey s line key
    match k with
    | none => return []
    | some name => return [(name, methodValue name text)]
  | .accessor line key => do
    let k ← evalKey s line key
    match k with
    | none => return []
    | some _ => throw (.unsupported ⟨"accessor property", line⟩)
  | .spread _ e => do
    let v ← guarded s e.line (eval s e)
    return spreadEntries v

theorem evalProperties_cons (p : Property) (rest : List Property) (object : Record Value) :
    evalProperties s (p :: rest) object =
      addedBy s p >>= fun es => evalProperties s rest (object.insertAll es) := by
  cases p with
  | value line key value =>
    rw [evalProperties, addedBy, bind_assoc]
    congr 1
    funext k
    cases k with
    | none => rfl
    | some name => rw [bind_assoc]; rfl
  | method line key text =>
    rw [evalProperties, addedBy, bind_assoc]
    congr 1
    funext k
    cases k <;> rfl
  | accessor line key =>
    rw [evalProperties, addedBy, bind_assoc]
    congr 1
    funext k
    cases k <;> rfl
  | spread line e =>
    rw [evalProperties, addedBy, bind_assoc]
    simp only [pure_bind, spreadInto_eq]

/-- A literal comes to an object with everything that its properties add. -/
theorem evalProperties_eq (ps : List Property) (object : Record Value) :
    evalProperties s ps object =
      (fun added => object.insertAll added.flatten) <$> ps.mapM (addedBy s) := by
  induction ps generalizing object with
  | nil => simp [evalProperties, Record.insertAll]
  | cons p rest ih =>
    rw [evalProperties_cons, List.mapM_cons]
    simp only [ih, map_eq_pure_bind, bind_assoc, pure_bind, List.flatten_cons,
      Record.insertAll_append]

/-! ## Literals in parts -/

/-- What a list of properties comes to. -/
def objectOf (s : Scene) (ps : List Property) : Eval (Record Value) := evalProperties s ps {}

theorem objectOf_eq (ps : List Property) :
    objectOf s ps = (fun added => Record.ofList added.flatten) <$> ps.mapM (addedBy s) :=
  evalProperties_eq ps {}

theorem objectOf_append (ps qs : List Property) :
    objectOf s (ps ++ qs) = do
      let a ← objectOf s ps
      let b ← objectOf s qs
      return a.extend b := by
  simp only [objectOf_eq, List.mapM_append, map_eq_pure_bind, bind_assoc, pure_bind,
    List.flatten_append, Record.extend_ofList]
  simp only [Record.ofList, Record.insertAll_append]

/-- A guard leaves a computation alone in which nothing fails softly and no chain breaks. -/
theorem guarded_eq_self {e : Eval Value} (hloud : Loud e) (hunbroken : Unbroken e) (line : Nat) :
    guarded s line e = e := by
  obtain ⟨value, warnings⟩ := e
  cases value with
  | ok v => exact congrArg (Logged.mk _) (List.append_nil warnings)
  | error fault =>
    cases fault with
    | soft reason => exact absurd rfl hloud
    | shortCircuit => exact absurd rfl hunbroken
    | unresolved name line => exact congrArg (Logged.mk _) (List.append_nil warnings)
    | unsupported what => exact congrArg (Logged.mk _) (List.append_nil warnings)

/-- An object literal that is spread out adds what its properties add. -/
theorem objectOf_spread {ps : List Property} (hps : keysEnd ps) (line inner : Nat) :
    objectOf s [.spread line (.object inner ps)] = objectOf s ps := by
  have hobject : eval s (.object inner ps) = Value.object <$> objectOf s ps := by
    rw [eval, map_eq_pure_bind]
    rfl
  have hguard : guarded s inner (eval s (.object inner ps)) = Value.object <$> objectOf s ps := by
    rw [← hobject]
    refine guarded_eq_self ?_ (unbroken_eval s ?_) inner
    · rw [eval]
      exact (loud_evalProperties ps {}).bind fun _ => avoids_pure _
    · rwa [Expr.ChainsEnd]
  calc objectOf s [.spread line (.object inner ps)]
    _ = guarded s inner (eval s (.object inner ps)) >>= fun v => pure (spreadInto {} v) := by
      rw [objectOf, evalProperties]
      rfl
    _ = (fun fields => Record.extend {} fields) <$> objectOf s ps := by
      rw [hguard, map_eq_pure_bind, map_eq_pure_bind, bind_assoc]
      rfl
    _ = objectOf s ps := by
      rw [objectOf_eq, ← comp_map]
      congr 1
      exact funext fun added => Record.extend_ofList {} added.flatten

/-! ## Literals that a module exports -/

/-- The properties of an object literal, perhaps in parentheses. -/
def propertiesOf? (e : Expr) : Option (List Property) :=
  match e.unwrapped with
  | .object _ ps => some ps
  | _ => none

/-- The properties of the option literal that a visit exports, if it exports one. -/
def literalOf? (v : Visit) : Option (List Property) :=
  match v.node with
  | .exported node =>
    if v.binds optionsName then
      ((node.variableNamed? optionsName).bind (·.initial)).bind propertiesOf?
    else none
  | _ => none

/-- The option literals that a module exports, in their order. -/
def literalsOf (o : Outline) : List (List Property) := o.visits.filterMap literalOf?

/-- The properties that a search has found so far. -/
def Found.all (found : Found) : List Property := found.properties.getD []

theorem all_findOptions {v : Visit} {found found' : Found}
    (h : findOptions v found = .ok found') :
    found'.all = found.all ++ (literalOf? v).getD [] := by
  unfold findOptions at h
  unfold literalOf?
  split at h
  · next hnode =>
    rw [hnode]
    cases h
    split <;> exact (List.append_nil _).symm
  · next node hnode =>
    rw [hnode]
    split at h
    · next hbinds =>
      cases h
      simp_all
    split at h
    · next hnone =>
      cases h
      simp [hnone]
    next hbinds _ d hd =>
    split at h
    · cases h
    · next line ps hps =>
      cases h
      obtain ⟨e, he, hps⟩ := Option.map_eq_some_iff.mp hps
      have hfound : propertiesOf? e = some ps := by rw [propertiesOf?, hps]
      simp_all [Found.all]
    · cases h
  · next hnode =>
    rw [hnode]
    cases h
    exact (List.append_nil _).symm

theorem all_foldlM {vs : List Visit} {found found' : Found}
    (h : vs.foldlM (fun s v => findOptions v s) found = .ok found') :
    found'.all = found.all ++ (vs.filterMap literalOf?).flatten := by
  induction vs generalizing found with
  | nil =>
    cases h
    exact (List.append_nil _).symm
  | cons v rest ih =>
    rw [List.foldlM_cons] at h
    cases hv : findOptions v found with
    | error e => rw [hv] at h; cases h
    | ok next =>
      rw [hv] at h
      rw [ih h, all_findOptions hv, List.append_assoc, List.filterMap_cons]
      cases literalOf? v <;> rfl

/-- The fragment of a module holds the properties of all the literals that it exports. -/
theorem properties_optionFragment {path : String} {o : Outline} {f : Fragment}
    (h : (optionFragment path o).value = .ok (some f)) :
    f.properties = (literalsOf o).flatten := by
  unfold optionFragment at h
  split at h
  · cases h
  · next found hfound =>
    obtain ⟨ps, hps, rfl⟩ := Option.map_eq_some_iff.mp (Except.ok.inj h)
    rw [Outline.walk_eq_foldlM] at hfound
    have hall := all_foldlM hfound
    rw [Found.all, hps] at hall
    exact hall

/-- Literals one behind the other come to their objects, each laid over those before it. -/
theorem objectOf_flatten (literals : List (List Property)) :
    objectOf s literals.flatten =
      List.foldl Record.extend {} <$> literals.mapM (objectOf s) := by
  induction literals using List.reverseRecOn with
  | nil => simp [objectOf, evalProperties]
  | append_singleton literals ps ih =>
    rw [List.flatten_append, objectOf_append, ih, List.mapM_append]
    simp only [List.mapM_cons, List.mapM_nil, List.flatten_cons, List.flatten_nil,
      List.append_nil, map_eq_pure_bind, bind_assoc, pure_bind, List.foldl_append,
      List.foldl_cons, List.foldl_nil]

/-! ## What exported literals come to -/

/-- What evaluating the literal comes to, given the evaluation of its properties. -/
def Fragment.concluded (f : Fragment) (e : Eval (Record Value)) : Logged (Except Rejection Value) :=
  ⟨f.conclude e.run.value, e.run.warnings⟩

theorem evaluate_eq_concluded (f : Fragment) (globals : Record Value) (directory : String) :
    f.evaluate globals directory =
      f.concluded (objectOf (f.scene globals directory) f.properties) := rfl

/-- **Object literals compose.** A literal in two parts comes to the object of the first part
extended by the object of the second one: its names stand in the order of their first occurrence,
each with its last value. An object literal spread out among properties can be replaced by its own
properties. The option literals of a module come to their objects, each laid over those before it,
and the path of the file. All this holds of values, faults and warnings alike. The keys of the
spread literal must end their optional chains, as those of every literal that is read do. -/
theorem evaluate_composes (s : Scene) (before ps behind : List Property) (hps : keysEnd ps)
    (line inner : Nat) :
    objectOf s (before ++ .spread line (.object inner ps) :: behind) =
      objectOf s (before ++ ps ++ behind) ∧
    (objectOf s (before ++ behind) = do
      let a ← objectOf s before
      let b ← objectOf s behind
      return a.extend b) ∧
    (∀ a b, (objectOf s before).run.value = .ok a → (objectOf s behind).run.value = .ok b →
      (a.extend b).keys = a.keys ++ (b.keys.filter fun name => name ∉ a.keys) ∧
      ∀ name, (a.extend b).get? name = (b.get? name).or (a.get? name)) ∧
    (∀ path o f globals directory, (optionFragment path o).value = .ok (some f) →
      f.evaluate globals directory = f.concluded
        (List.foldl Record.extend {} <$>
          (literalsOf o).mapM (objectOf (f.scene globals directory)))) ∧
    ∀ dialect text path o f, Outline.read dialect text = .ok o →
      (optionFragment path o).value = .ok (some f) → keysEnd f.properties := by
  refine ⟨?_, objectOf_append before behind, fun a b ha hb => ?_,
    fun path o f globals directory hf => ?_, fun dialect text path o f => keysEnd_of_read⟩
  · have hspread := objectOf_spread (s := s) hps line inner
    rw [List.append_assoc, ← List.singleton_append, objectOf_append, objectOf_append before]
    rw [objectOf_append _ behind, objectOf_append ps, hspread]
  · have hempty : (∅ : Record Value).keys.Nodup := List.nodup_nil
    have hnodup : b.keys.Nodup := nodup_evalProperties s hempty hb
    exact ⟨Record.keys_extend hnodup a, Record.get?_extend hnodup a⟩
  · rw [← objectOf_flatten, ← properties_optionFragment hf]
    exact evaluate_eq_concluded f globals directory

/-! A literal that is spread out between two others, and a module that exports two of them, the
second one in a block. -/

def firstPart : List Property :=
  [.value 1 (.fixed "a") (.string 1 "x"), .value 1 (.fixed "b") (.string 1 "y")]

def spreadPart : List Property := [.value 1 (.computed (.string 1 "b")) (.string 1 "w")]

def lastPart : List Property :=
  [.value 1 (.fixed "c") (.string 1 "v"), .value 1 (.fixed "a") (.string 1 "z")]

def firstObject : Record Value := ⟨[("a", .string "x"), ("b", .string "y")]⟩

def lastObject : Record Value := ⟨[("c", .string "v"), ("a", .string "z")]⟩

def exportedPart (ps : List Property) : Item :=
  .exported ⟨1, [⟨some "OPTS", some (.object 1 ps)⟩]⟩

def partsOutline : Outline :=
  ⟨2, ["OPTS"], [exportedPart firstPart, .scope ["OPTS"] [exportedPart lastPart]]⟩

def partsFragment : Fragment := ⟨"x.js", firstPart ++ lastPart⟩

def partsValue : Value :=
  .object ⟨[("a", .string "z"), ("b", .string "y"), ("c", .string "v"),
    ("filePath", .string "x.js")]⟩

theorem evaluate_composes_of_parts :
    keysEnd spreadPart ∧
    objectOf softScene (firstPart ++ .spread 1 (.object 1 spreadPart) :: lastPart) =
      objectOf softScene (firstPart ++ spreadPart ++ lastPart) ∧
    (objectOf softScene firstPart).run.value = .ok firstObject ∧
    (objectOf softScene lastPart).run.value = .ok lastObject ∧
    (firstObject.extend lastObject).keys = ["a", "b", "c"] ∧
    (optionFragment "x.js" partsOutline).value = .ok (some partsFragment) ∧
    (partsFragment.evaluate {} "/").value = .ok partsValue ∧
    partsFragment.evaluate {} "/" = partsFragment.concluded
      (List.foldl Record.extend {} <$>
        (literalsOf partsOutline).mapM (objectOf (partsFragment.scene {} "/"))) ∧
    Outline.read ⟨false, false⟩ softText = .ok softOutline ∧
    (optionFragment "x.js" softOutline).value = .ok (some softFragment) ∧
    keysEnd softFragment.properties := by
  have hspread : keysEnd spreadPart := by simp [spreadPart, keysEnd, Key.ChainsEnd, Expr.ChainsEnd]
  have hfirst : (objectOf softScene firstPart).run.value = .ok firstObject := rfl
  have hlast : (objectOf softScene lastPart).run.value = .ok lastObject := rfl
  have hparts : (optionFragment "x.js" partsOutline).value = .ok (some partsFragment) := rfl
  have hsoft : (optionFragment "x.js" softOutline).value = .ok (some softFragment) := rfl
  obtain ⟨hsame, -, hextend, hevaluate, hread⟩ :=
    evaluate_composes softScene firstPart spreadPart lastPart hspread 1 1
  exact ⟨hspread, hsame, hfirst, hlast, (hextend _ _ hfirst hlast).1, hparts, rfl,
    hevaluate _ _ _ {} "/" hparts, read_softText, hsoft, hread _ _ _ _ _ read_softText hsoft⟩

end Literal

end CommandFiles
