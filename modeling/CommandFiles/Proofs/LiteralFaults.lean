import CommandFiles.Context
import CommandFiles.Literal.Extract
import CommandFiles.Proofs.ModuleTriples

/-! # Faults of option literals

An option literal is an object, so it contains the soft faults of its parts, and because it was read
from a text no broken chain gets out of its keys. The faults that do get out are names without a
meaning and syntax outside the supported subset. They are the same if parts that fail softly are
replaced; only the text of the literal that is given along with some of them is then another. -/
namespace CommandFiles

namespace Script

theorem Expr.ChainsEnd.unwrapped : ∀ {e : Expr}, e.ChainsEnd → e.unwrapped.ChainsEnd
  | .wrapped _ e, h => by
    rw [Expr.ChainsEnd] at h
    rw [Expr.unwrapped]
    exact Expr.ChainsEnd.unwrapped h
  | .null _, h | .boolean _ _, h | .number _ _, h | .string _ _, h | .template _ _ _, h
  | .name _ _, h | .array _ _, h | .object _ _, h | .member _ _ _ _, h | .index _ _ _ _, h
  | .call _ _ _ _ _, h | .chain _ _, h | .function _ _, h | .unary _ _ _, h | .binary _ _ _ _, h
  | .logical _ _ _ _, h | .conditional _ _ _ _, h | .foreign _ _, h => h

end Script

namespace Literal

open CommandFiles.Script

/-! ## Literals of read texts -/

/-- Whether chains end in the keys of the properties found so far. -/
def Found.KeysEnd (found : Found) : Prop := ∀ ps ∈ found.properties, keysEnd ps

/-- A visit adds the properties of an exported object literal to those found so far, if it adds
anything. -/
theorem findOptions_cases {v : Visit} {found found' : Found} (h : findOptions v found = .ok found') :
    found'.properties = found.properties ∨
      ∃ node d e l ps, v.node = .exported node ∧ d ∈ node.declarators ∧ d.initial = some e ∧
        e.unwrapped = .object l ps ∧ found'.properties = some (found.properties.getD [] ++ ps) := by
  unfold findOptions at h
  split at h
  · cases h
    split <;> exact .inl rfl
  · rename_i node hnode
    split at h
    · exact .inl (congrArg Found.properties (Except.ok.inj h)).symm
    split at h
    · exact .inl (congrArg Found.properties (Except.ok.inj h)).symm
    rename_i d hd
    split at h
    · cases h
    · rename_i l ps hps
      obtain ⟨e, he, hps⟩ := Option.map_eq_some_iff.mp hps
      exact .inr ⟨node, d, e, l, ps, hnode, List.mem_of_find?_eq_some hd, he, hps,
        (congrArg Found.properties (Except.ok.inj h)).symm⟩
    · cases h
  · exact .inl (congrArg Found.properties (Except.ok.inj h)).symm

theorem keysEnd_findOptions {v : Visit} {found found' : Found} (hv : v.node.ChainsEnd)
    (hf : found.KeysEnd) (h : findOptions v found = .ok found') : found'.KeysEnd := by
  rcases findOptions_cases h with hsame | ⟨node, d, e, l, ps, hnode, hd, he, hps, hadded⟩
  · rw [Found.KeysEnd, hsame]
    exact hf
  · rw [hnode] at hv
    have hkeys := (hv d hd e he).unwrapped
    rw [hps, Expr.ChainsEnd, keysEnd_iff] at hkeys
    intro all hall
    obtain rfl := Option.some.inj (hadded.symm.trans hall)
    refine (keysEnd_iff _).mpr fun p hp => ?_
    rcases List.mem_append.mp hp with hp | hp
    · cases hbefore : found.properties with
      | none => rw [hbefore] at hp; cases hp
      | some before =>
        rw [hbefore] at hp
        exact (keysEnd_iff before).mp (hf before hbefore) p hp
    · exact hkeys p hp

theorem keysEnd_foldlM {vs : List Visit} (hvs : ∀ v ∈ vs, v.node.ChainsEnd) {found found' : Found}
    (hf : found.KeysEnd) (h : vs.foldlM (fun s v => findOptions v s) found = .ok found') :
    found'.KeysEnd := by
  induction vs generalizing found with
  | nil =>
    cases h
    exact hf
  | cons v rest ih =>
    rw [List.foldlM_cons] at h
    cases hv : findOptions v found with
    | error e => rw [hv] at h; cases h
    | ok next =>
      rw [hv] at h
      exact ih (fun v hv => hvs v (List.mem_cons_of_mem _ hv))
        (keysEnd_findOptions (hvs v List.mem_cons_self) hf hv) h

theorem keysEnd_of_read {dialect : Dialect} {text path : String} {o : Outline} {f : Fragment}
    (hread : Outline.read dialect text = .ok o)
    (hf : (optionFragment path o).value = .ok (some f)) : keysEnd f.properties := by
  have hvisits : ∀ v ∈ o.visits, v.node.ChainsEnd := by
    intro v hv
    obtain ⟨i, hi, hv⟩ := mem_visitsOfItems.mp hv
    exact chainsEnd_of_read hread i hi _ v hv
  rw [optionFragment] at hf
  split at hf
  · cases hf
  · rename_i found hw
    rw [Outline.walk_eq_foldlM] at hw
    have hstart : Found.KeysEnd {} := nofun
    have hkeys := keysEnd_foldlM hvisits hstart hw
    obtain ⟨ps, hps, rfl⟩ := Option.map_eq_some_iff.mp (Except.ok.inj hf)
    exact hkeys ps hps

/-! ## Rejections -/

/-- A rejection with another text of the literal. -/
def Rejection.withSource (generated : Option String) : Rejection → Rejection
  | .compile path reason _ => .compile path reason generated
  | r => r

theorem withSource_rejection (fault : Fault) (path : String) (generated generated' : Option String) :
    (fault.rejection path generated).withSource generated' = fault.rejection path generated' := by
  cases fault <;> rfl

/-- The literal with other properties. -/
def Fragment.replaced (f : Fragment) (ps : List Property) : Fragment := { f with properties := ps }

/-- The properties of a literal are evaluated in the scene of its file. -/
def Fragment.scene (f : Fragment) (globals : Record Value) (directory : String) : Scene :=
  ⟨f.path, globals, directory⟩

/-- What evaluating a literal comes to once its properties have been evaluated. -/
def Fragment.conclude (f : Fragment) : Except Fault (Record Value) → Except Rejection Value
  | .ok object => .ok (.object (object.insert filePathKey (.string f.path)))
  | .error fault => .error (fault.rejection f.path f.source.toOption)

theorem conclude_replaced (f : Fragment) (ps : List Property) (r : Except Fault (Record Value)) :
    (f.replaced ps).conclude r =
      (f.conclude r).mapError (Rejection.withSource (f.replaced ps).source.toOption) := by
  cases r with
  | ok object => rfl
  | error fault => exact congrArg Except.error (withSource_rejection _ _ _ _).symm

section Evaluate

variable {f : Fragment} {globals : Record Value} {directory : String}

theorem value_evaluate :
    (f.evaluate globals directory).value =
      f.conclude (evalProperties (f.scene globals directory) f.properties {}).run.value := rfl

theorem evaluate_replaced {ps : List Property}
    (h : SoftenedProperties (f.scene globals directory) f.properties ps) :
    ((f.replaced ps).evaluate globals directory).value =
      (f.evaluate globals directory).value.mapError
        (Rejection.withSource (f.replaced ps).source.toOption) := by
  have hvalue := (loud_evalProperties f.properties {}).value_eq (h.outcome_eq {})
  rw [value_evaluate, value_evaluate, hvalue]
  exact conclude_replaced f ps _

theorem fault_of_evaluate (hk : keysEnd f.properties) {r : Rejection}
    (h : (f.evaluate globals directory).value = .error r) :
    ∃ fault, (evalProperties (f.scene globals directory) f.properties {}).run.value =
        .error fault ∧ r = fault.rejection f.path f.source.toOption ∧
      ((∃ name line, fault = .unresolved name line) ∨ ∃ what, fault = .unsupported what) := by
  rw [value_evaluate] at h
  have hloud := loud_evalProperties (s := f.scene globals directory) f.properties {}
  have hunbroken := unbroken_evalProperties (f.scene globals directory) hk {}
  cases hv : (evalProperties (f.scene globals directory) f.properties {}).run.value with
  | ok object => rw [hv] at h; cases h
  | error fault =>
    rw [hv] at h
    rw [Loud, Avoids, outcome, hv] at hloud
    rw [Unbroken, Avoids, outcome, hv] at hunbroken
    refine ⟨fault, rfl, (Except.error.inj h).symm, ?_⟩
    cases fault with
    | soft reason => exact absurd rfl hloud
    | shortCircuit => exact absurd rfl hunbroken
    | unresolved name line => exact .inl ⟨name, line, rfl⟩
    | unsupported what => exact .inr ⟨what, rfl⟩

end Evaluate

/-! ## What replacing does and which faults get out -/

/-- Parts of a literal that fail softly can be replaced by `undefined` and properties whose keys do
can be left out, at any depth: the value or the fault stays the same, and only the text given along
with a fault is that of the other literal. The faults are names without a meaning and syntax outside
the supported subset. -/
theorem evaluate_contains_soft_faults {dialect : Dialect} {text path : String} {o : Outline}
    {f : Fragment} (hread : Outline.read dialect text = .ok o)
    (hf : (optionFragment path o).value = .ok (some f)) (globals : Record Value)
    (directory : String) :
    (∀ ps, SoftenedProperties (f.scene globals directory) f.properties ps →
      ((f.replaced ps).evaluate globals directory).value =
        (f.evaluate globals directory).value.mapError
          (Rejection.withSource (f.replaced ps).source.toOption)) ∧
    ∀ r, (f.evaluate globals directory).value = .error r →
      ∃ fault, (evalProperties (f.scene globals directory) f.properties {}).run.value =
          .error fault ∧
        ((∃ name line, fault = .unresolved name line ∧
            r = .compile f.path s!"{name} is not defined (line {line})" f.source.toOption) ∨
          ∃ what, fault = .unsupported what ∧ r = .unsupported f.path what) := by
  refine ⟨fun ps h => evaluate_replaced h, fun r hr => ?_⟩
  obtain ⟨fault, hfault, hrejection, hkind⟩ := fault_of_evaluate (keysEnd_of_read hread hf) hr
  refine ⟨fault, hfault, ?_⟩
  rcases hkind with ⟨name, line, rfl⟩ | ⟨what, rfl⟩
  · exact .inl ⟨name, line, rfl, hrejection⟩
  · exact .inr ⟨what, rfl, hrejection⟩

/-! A literal with an item and a key that fail softly and with a name without a meaning. -/

def softText : String :=
  "export const OPTS = \x7b a: [RUNTIMES.NOPE.y], [RUNTIMES.NOPE.k]: 'v', b: missing \x7d;"

def softMember (key : String) : Expr :=
  .member 1 false (.member 1 false (.name 1 "RUNTIMES") "NOPE") key

def softFragment : Fragment where
  path := "x.js"
  properties :=
    [.value 1 (.fixed "a") (.array 1 [.item (softMember "y")]),
     .value 1 (.computed (softMember "k")) (.string 1 "v"),
     .value 1 (.fixed "b") (.name 1 "missing")]

def softOutline : Outline :=
  ⟨1, ["OPTS"], [.exported ⟨1, [⟨some "OPTS", some (.object 1 softFragment.properties)⟩]⟩]⟩

/-- The properties with the item replaced and the key left out. -/
def softenedProperties : List Property :=
  [.value 1 (.fixed "a") (.array 1 [.item (undefinedAt 1)]),
   .value 1 (.fixed "b") (.name 1 "missing")]

/-- Whether an outline is the one above. Numbers in expressions have no decidable equality, so the
comparison is by shape. -/
def isSoftOutline : Outline → Bool
  | ⟨1, ["OPTS"], [.exported ⟨1, [⟨some "OPTS", some (.object 1
      [.value 1 (.fixed "a") (.array 1
        [.item (.member 1 false (.member 1 false (.name 1 "RUNTIMES") "NOPE") "y")]),
       .value 1 (.computed (.member 1 false (.member 1 false (.name 1 "RUNTIMES") "NOPE") "k"))
        (.string 1 "v"),
       .value 1 (.fixed "b") (.name 1 "missing")])⟩]⟩]⟩ => true
  | _ => false

theorem eq_softOutline {o : Outline} (h : isSoftOutline o = true) : o = softOutline := by
  unfold isSoftOutline at h
  split at h
  · rfl
  · cases h

theorem read_softText : Outline.read ⟨false, false⟩ softText = .ok softOutline := by
  have h : (Outline.read ⟨false, false⟩ softText).toOption.any isSoftOutline = true := by
    decide +kernel
  cases hr : Outline.read ⟨false, false⟩ softText with
  | error e => rw [hr] at h; cases h
  | ok o =>
    rw [hr] at h
    rw [eq_softOutline h]

def softScene : Scene := softFragment.scene (default : Context).globals "/"

theorem softened_softFragment :
    SoftenedProperties softScene softFragment.properties softenedProperties :=
  have fails (key : String) : FailsSoftly softScene (softMember key) := ⟨_, rfl⟩
  .value (.fixed "a") (.array (.softItem (fails "y") .nil))
    (.dropValue (fails "k") (.value (.fixed "b") (.same _) .nil))

/-- The rejection for the name without a meaning. -/
def missingName : Rejection :=
  .compile "x.js" "missing is not defined (line 1)" softFragment.source.toOption

theorem evaluate_contains_soft_faults_of_missing_name :
    Outline.read ⟨false, false⟩ softText = .ok softOutline ∧
    (optionFragment "x.js" softOutline).value = .ok (some softFragment) ∧
    SoftenedProperties softScene softFragment.properties softenedProperties ∧
    ((softFragment.replaced softenedProperties).evaluate (default : Context).globals "/").value =
      (softFragment.evaluate (default : Context).globals "/").value.mapError
        (Rejection.withSource (softFragment.replaced softenedProperties).source.toOption) ∧
    (softFragment.evaluate (default : Context).globals "/").value = .error missingName ∧
    ∃ fault, (evalProperties softScene softFragment.properties {}).run.value = .error fault ∧
      ((∃ name line, fault = .unresolved name line ∧ missingName =
          .compile "x.js" s!"{name} is not defined (line {line})" softFragment.source.toOption) ∨
        ∃ what, fault = .unsupported what ∧ missingName = .unsupported "x.js" what) := by
  have hf : (optionFragment "x.js" softOutline).value = .ok (some softFragment) := rfl
  have hr : (softFragment.evaluate (default : Context).globals "/").value = .error missingName :=
    rfl
  have h := evaluate_contains_soft_faults read_softText hf (default : Context).globals "/"
  exact ⟨read_softText, hf, softened_softFragment, h.1 _ softened_softFragment, hr, h.2 _ hr⟩

/-- The text of the literal that is given along with a fault shows what was replaced. -/
theorem not_evaluate_unchanged :
    ¬ ∀ (dialect : Dialect) (text path : String) (o : Outline) (f : Fragment)
      (globals : Record Value) (directory : String) (ps : List Property),
      Outline.read dialect text = .ok o → (optionFragment path o).value = .ok (some f) →
      SoftenedProperties (f.scene globals directory) f.properties ps →
      ((f.replaced ps).evaluate globals directory).value =
        (f.evaluate globals directory).value := by
  intro h
  have heq := h _ _ "x.js" _ softFragment (default : Context).globals "/" _ read_softText rfl
    softened_softFragment
  have htexts : (softFragment.replaced softenedProperties).source.toOption =
      softFragment.source.toOption := (Rejection.compile.inj (Except.error.inj heq)).2.2
  revert htexts
  decide +kernel

end Literal

end CommandFiles
