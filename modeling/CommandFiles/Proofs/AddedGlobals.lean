import CommandFiles.Context
import CommandFiles.Proofs.SoftFaults

/-! # Names added to a configuration

More names under which literals can look things up change a literal only if it fails on one of them
without them. A name without a meaning is a fault that nothing contains, neither a property value
nor an optional chain nor a key; so an evaluation that does not end in it has looked up only names
that mean the same afterwards. -/
namespace CommandFiles

namespace Literal

open CommandFiles.Script

/-! ## Evaluations that differ in missing names only -/

/-- Whether two evaluations are the same, unless the first one ends at one of some names without a
meaning. -/
def Agrees {α : Type} (names : List String) (e e' : Eval α) : Prop :=
  e = e' ∨ ∃ name ∈ names, ∃ line, e.run.value = .error (.unresolved name line)

section Agrees

variable {α β : Type} {names : List String} {s : Scene} {line : Nat}

theorem Agrees.refl (e : Eval α) : Agrees names e e := .inl rfl

theorem bind_of_error {e : Eval α} {fault : Fault} (h : e.run.value = .error fault)
    (f : α → Eval β) : (e >>= f).run.value = .error fault := by
  rw [value_bind, h]
  rfl

theorem bind_of_ok {e : Eval α} {a : α} (h : e.run.value = .ok a) (f : α → Eval β) :
    (e >>= f).run = ⟨(f a).run.value, e.run.warnings ++ (f a).run.warnings⟩ := by
  obtain ⟨value, warnings⟩ := e
  cases h
  rfl

/-- An evaluation that fails does not go on. -/
theorem bind_eq_of_error {e : Eval α} {fault : Fault} (h : e.run.value = .error fault)
    (f g : α → Eval β) : e >>= f = e >>= g := by
  obtain ⟨value, warnings⟩ := e
  cases h
  rfl

theorem Agrees.bind {e e' : Eval α} {f f' : α → Eval β} (he : Agrees names e e')
    (hf : ∀ a, Agrees names (f a) (f' a)) : Agrees names (e >>= f) (e' >>= f') := by
  rcases he with rfl | ⟨name, hname, line, hv⟩
  · cases hv : e.run.value with
    | error fault => exact .inl (bind_eq_of_error hv f f')
    | ok a =>
      rcases hf a with hsame | ⟨name, hname, line, hmissing⟩
      · exact .inl (ExceptT.ext (by rw [bind_of_ok hv, bind_of_ok hv, hsame]))
      · exact .inr ⟨name, hname, line, by rw [bind_of_ok hv, hmissing]⟩
  · exact .inr ⟨name, hname, line, bind_of_error hv f⟩

/-- What is caught is never a name without a meaning. -/
theorem Agrees.tryCatch {e e' : Eval α} {handle : Fault → Eval α} (he : Agrees names e e')
    (hrethrow : ∀ name line, handle (.unresolved name line) = throw (.unresolved name line)) :
    Agrees names (ExceptT.tryCatch e handle) (ExceptT.tryCatch e' handle) := by
  rcases he with rfl | ⟨name, hname, line, hv⟩
  · exact .refl _
  · refine .inr ⟨name, hname, line, ?_⟩
    rw [value_tryCatch, hv]
    exact congrArg (fun e : Eval α => e.run.value) (hrethrow name line)

theorem Agrees.guarded {e e' : Eval Value} (he : Agrees names e e') :
    Agrees names (guarded s line e) (guarded s line e') :=
  he.tryCatch fun _ _ => rfl

theorem Agrees.endChain {e e' : Eval Value} (he : Agrees names e e') :
    Agrees names (endChain e) (endChain e') :=
  he.tryCatch fun _ _ => rfl

end Agrees

/-! ## Scenes with more names -/

/-- Whether every name means the same in other globals, up to some names that had no meaning. -/
def Adds (names : List String) (globals globals' : Record Value) : Prop :=
  ∀ name, globals'.get? name = globals.get? name ∨ globals.get? name = none ∧ name ∈ names

/-- The scene with other globals. -/
def Scene.given (s : Scene) (globals : Record Value) : Scene := { s with globals := globals }

section Adds

variable {names : List String} {s : Scene} {globals : Record Value}

theorem agrees_nameValue (h : Adds names s.globals globals) (line : Nat) (name : String) :
    Agrees names (liftExcept (nameValue s name line) : Eval Value)
      (liftExcept (nameValue (s.given globals) name line)) := by
  unfold nameValue
  split
  · exact .refl _
  · exact .refl _
  · exact .refl _
  · rw [Scene.given]
    rcases h name with hsame | ⟨hnone, hmem⟩
    · rw [hsame]
      exact .refl _
    · rw [hnone]
      exact .inr ⟨name, hmem, line, rfl⟩

mutual

theorem agrees_eval (h : Adds names s.globals globals) : ∀ e : Expr,
    Agrees names (eval s e) (eval (s.given globals) e)
  | .null _ | .boolean _ _ | .number _ _ | .string _ _ | .function _ _ | .foreign _ _ => .inl rfl
  | .name line name => by
    rw [eval, eval]
    exact agrees_nameValue h line name
  | .template _ _ spans => by
    rw [eval, eval]
    exact (agrees_evalSpans h spans).bind fun _ => .refl _
  | .array _ elements => by
    rw [eval, eval]
    exact (agrees_evalElements h elements).bind fun _ => .refl _
  | .object _ ps => by
    rw [eval, eval]
    exact (agrees_evalProperties h ps {}).bind fun _ => .refl _
  | .member _ _ target _ => by
    rw [eval, eval]
    exact (agrees_eval h target).bind fun _ => .refl _
  | .index _ _ target key => by
    rw [eval, eval]
    exact (agrees_eval h target).bind fun _ => Agrees.bind (.refl _) fun _ =>
      (agrees_eval h key).bind fun _ => .refl _
  | .call _ _ _ callee args => by
    rw [eval, eval]
    exact (agrees_eval h callee).bind fun _ => Agrees.bind (.refl _) fun _ =>
      (agrees_evalArguments h args).bind fun _ => .refl _
  | .chain _ inner => by
    rw [eval, eval]
    split
    · exact (agrees_eval h inner).endChain
    · exact .refl _
  | .unary _ _ e => by
    rw [eval, eval]
    exact (agrees_eval h e).bind fun _ => .refl _
  | .binary _ _ a b => by
    rw [eval, eval]
    exact (agrees_eval h a).bind fun _ => (agrees_eval h b).bind fun _ => .refl _
  | .logical _ op a b => by
    rw [eval, eval]
    refine (agrees_eval h a).bind fun v => ?_
    split
    · exact .refl _
    · exact agrees_eval h b
  | .conditional _ test a b => by
    rw [eval, eval]
    refine (agrees_eval h test).bind fun v => ?_
    split
    · exact agrees_eval h a
    · exact agrees_eval h b
  | .wrapped _ e => by
    rw [eval, eval]
    exact agrees_eval h e

theorem agrees_evalSpans (h : Adds names s.globals globals) : ∀ spans : List TemplateSpan,
    Agrees names (evalSpans s spans) (evalSpans (s.given globals) spans)
  | [] => .refl _
  | .mk e _ :: rest => by
    rw [evalSpans, evalSpans]
    exact (agrees_eval h e).bind fun _ => (agrees_evalSpans h rest).bind fun _ => .refl _

theorem agrees_evalElements (h : Adds names s.globals globals) : ∀ elements : List Element,
    Agrees names (evalElements s elements) (evalElements (s.given globals) elements)
  | [] => .refl _
  | .hole :: rest => by
    rw [evalElements, evalElements]
    exact (agrees_evalElements h rest).bind fun _ => .refl _
  | .item e :: rest => by
    rw [evalElements, evalElements]
    exact (agrees_eval h e).guarded.bind fun _ => (agrees_evalElements h rest).bind fun _ =>
      .refl _
  | .spread _ e :: rest => by
    have hmore : ∀ items : List Value,
        Agrees names (evalElements s rest >>= fun more => pure (items ++ more))
          (evalElements (s.given globals) rest >>= fun more => pure (items ++ more)) := fun _ =>
      (agrees_evalElements h rest).bind fun _ => .refl _
    rw [evalElements, evalElements]
    refine (agrees_eval h e).guarded.bind fun v => ?_
    cases spreadItems? v with
    | some items => exact hmore items
    | none => exact Agrees.bind (.refl _) fun _ => hmore [.undefined]

theorem agrees_evalArguments (h : Adds names s.globals globals) : ∀ args : List Element,
    Agrees names (evalArguments s args) (evalArguments (s.given globals) args)
  | [] => .refl _
  | .hole :: rest => by
    rw [evalArguments, evalArguments]
    exact agrees_evalArguments h rest
  | .item e :: rest => by
    rw [evalArguments, evalArguments]
    exact (agrees_eval h e).bind fun _ => (agrees_evalArguments h rest).bind fun _ => .refl _
  | .spread _ e :: rest => by
    rw [evalArguments, evalArguments]
    refine (agrees_eval h e).bind fun v => ?_
    cases v with
    | array items => exact (agrees_evalArguments h rest).bind fun _ => .refl _
    | _ => exact .refl _

theorem agrees_evalProperties (h : Adds names s.globals globals) : ∀ (ps : List Property)
    (object : Record Value),
    Agrees names (evalProperties s ps object) (evalProperties (s.given globals) ps object)
  | [], _ => .refl _
  | .value line key e :: rest, object => by
    rw [evalProperties, evalProperties]
    refine (agrees_evalKey h line key).bind fun k => ?_
    cases k with
    | none => exact agrees_evalProperties h rest object
    | some name =>
      exact (agrees_eval h e).guarded.bind fun _ => agrees_evalProperties h rest _
  | .method line key _ :: rest, object => by
    rw [evalProperties, evalProperties]
    refine (agrees_evalKey h line key).bind fun k => ?_
    cases k with
    | none => exact agrees_evalProperties h rest object
    | some name => exact agrees_evalProperties h rest _
  | .accessor line key :: rest, object => by
    rw [evalProperties, evalProperties]
    refine (agrees_evalKey h line key).bind fun k => ?_
    cases k with
    | none => exact agrees_evalProperties h rest object
    | some name => exact .refl _
  | .spread _ e :: rest, object => by
    rw [evalProperties, evalProperties]
    exact (agrees_eval h e).guarded.bind fun _ => agrees_evalProperties h rest _

theorem agrees_evalKey (h : Adds names s.globals globals) (line : Nat) : ∀ key : Key,
    Agrees names (evalKey s line key) (evalKey (s.given globals) line key)
  | .fixed _ => .refl _
  | .computed e => by
    rw [evalKey, evalKey]
    exact ((agrees_eval h e).bind fun _ => .refl _).tryCatch fun _ _ => rfl

end

end Adds

/-! ## The message about a missing name -/

/-- Only digits stand between the last space of the message and its end. -/
theorem takeWhile_isDigit_message (front : List Char) (line : Nat) :
    ((front ++ ' ' :: Nat.toDigits 10 line).reverse.takeWhile Char.isDigit) =
      (Nat.toDigits 10 line).reverse := by
  have hdigits : ∀ c ∈ (Nat.toDigits 10 line).reverse, c.isDigit = true := fun c hc =>
    Nat.isDigit_of_mem_toDigits (by decide) (by decide) (List.mem_reverse.mp hc)
  rw [List.reverse_append, List.reverse_cons, List.append_assoc,
    List.takeWhile_append_of_pos hdigits, List.singleton_append,
    List.takeWhile_cons_of_neg (by decide), List.append_nil]

/-- The message tells which name is missing. -/
theorem missing_inj {name other : String} {line next : Nat}
    (h : s!"{name} is not defined (line {line})" = s!"{other} is not defined (line {next})") :
    name = other := by
  have hchars : ∀ (n : String) (l : Nat), s!"{n} is not defined (line {l})".toList =
      ((n.toList ++ " is not defined (line".toList) ++ ' ' :: Nat.toDigits 10 l) ++ [')'] := by
    intro n l
    simp [toString, Nat.repr]
  have hbody := congrArg String.toList h
  rw [hchars, hchars] at hbody
  replace hbody := List.append_cancel_right hbody
  have hdigits := congrArg (fun cs => (cs.reverse.takeWhile Char.isDigit).reverse) hbody
  simp only [takeWhile_isDigit_message, List.reverse_reverse] at hdigits
  rw [hdigits] at hbody
  exact String.toList_inj.mp (List.append_cancel_right (List.append_cancel_right hbody))

end Literal

namespace Context

open CommandFiles.Literal

variable {c : Context} {added globals : List (String × String)}

/-- The context with other globals in its configuration. -/
def withGlobals (c : Context) (globals : List (String × String)) : Context :=
  { c with config := { c.config with globals := globals } }

/-- The names of the library. -/
def libraryNames (c : Context) : List (String × Value) :=
  [("OPTION_TYPES", optionKinds), ("RUNTIMES", runtimes), ("INPUT_TYPES", inputKinds),
   ("root", .string c.rootDir), ("_z", pathHelpers), ("String", .helper .string)]

/-- The names whose meaning no configuration changes. -/
def fixedNames (c : Context) : List (String × Value) :=
  [("undefined", .undefined), ("NaN", .number Number.notANumber),
   ("Infinity", .number Number.infinity)] ++ c.libraryNames

/-- The globals of a configuration as values. -/
def texts (globals : List (String × String)) : List (String × Value) :=
  globals.map fun (name, text) => (name, .string text)

theorem map_fst_texts (globals : List (String × String)) :
    (texts globals).map Prod.fst = globals.map Prod.fst := by
  rw [texts, List.map_map]
  rfl

/-- A name means what it means in the library, or else what the configuration says. -/
theorem get?_globals (hnodup : (c.config.globals.map Prod.fst).Nodup) (name : String) :
    c.globals.get? name =
      (c.libraryNames.reverse.lookup name).or ((texts c.config.globals).lookup name) := by
  rw [← map_fst_texts] at hnodup
  rw [← Record.get?_ofList hnodup]
  exact Record.get?_insertAll _ _ _

theorem adds_globals (hperm : globals.Perm (c.config.globals ++ added))
    (hnodup : (globals.map Prod.fst).Nodup) :
    Adds (added.map Prod.fst) c.globals (c.withGlobals globals).globals := by
  have hboth : ((c.config.globals ++ added).map Prod.fst).Nodup :=
    (hperm.map Prod.fst).nodup hnodup
  rw [List.map_append] at hboth
  obtain ⟨hold, -, hdisjoint⟩ := List.nodup_append.mp hboth
  have htexts : (texts globals).Perm (texts c.config.globals ++ texts added) := by
    rw [texts, texts, texts, ← List.map_append]
    exact hperm.map _
  intro name
  rw [get?_globals hold, get?_globals hnodup]
  change (c.libraryNames.reverse.lookup name).or ((texts globals).lookup name) = _ ∨ _
  rw [Record.lookup_of_perm htexts ((map_fst_texts globals).symm ▸ hnodup), List.lookup_append]
  by_cases hadded : name ∈ added.map Prod.fst
  · have hnew : (texts c.config.globals).lookup name = none := by
      refine Record.lookup_of_not_mem ?_
      rw [map_fst_texts]
      exact fun hmem => hdisjoint name hmem name hadded rfl
    rw [hnew]
    cases c.libraryNames.reverse.lookup name with
    | some v => exact .inl rfl
    | none => exact .inr ⟨rfl, hadded⟩
  · rw [← map_fst_texts] at hadded
    rw [Record.lookup_of_not_mem hadded, Option.or_none]
    exact .inl rfl

/-- The library keeps its names. -/
theorem nameValue_fixed {e : String × Value} (he : e ∈ c.fixedNames)
    (globals : List (String × String)) (path directory : String) (line : Nat) :
    nameValue ⟨path, (c.withGlobals globals).globals, directory⟩ e.1 line = .ok e.2 := by
  have hlibrary : ∀ name, (c.withGlobals globals).globals.get? name =
      (c.libraryNames.reverse.lookup name).or (Record.get? (.ofList (texts globals)) name) :=
    Record.get?_insertAll _ _
  simp only [fixedNames, libraryNames, List.cons_append, List.nil_append, List.mem_cons,
    List.not_mem_nil, or_false] at he
  rcases he with rfl | rfl | rfl | rfl | rfl | rfl | rfl | rfl | rfl <;>
    simp [nameValue, hlibrary, libraryNames, Record.lookup_entry]

end Context

namespace Literal

/-- Evaluating a literal comes to the same with more globals, unless it fails without them because
one of them is missing. -/
theorem evaluate_eq_or_missing {names : List String} {before after : Record Value}
    (h : Adds names before after) (f : Fragment) (directory : String) :
    f.evaluate after directory = f.evaluate before directory ∨
      ∃ name ∈ names, ∃ line : Nat, (f.evaluate before directory).value = .error
        (.compile f.path s!"{name} is not defined (line {line})" f.source.toOption) := by
  rcases agrees_evalProperties (s := ⟨f.path, before, directory⟩) h f.properties {} with
    hsame | ⟨name, hname, line, hmissing⟩
  · left
    rw [Fragment.evaluate, Fragment.evaluate, hsame]
    rfl
  · refine .inr ⟨name, hname, line, ?_⟩
    rw [Fragment.evaluate, hmissing]
    rfl

/-- **Globals added to a configuration do not change a literal that has a value, nor one with
unsupported syntax.** A literal that fails on a missing name changes only if the name is one of the
added ones, and no configuration changes the meaning of the names of the library. What stays the
same is the value or the error with all warnings. -/
theorem evaluate_withGlobals (f : Fragment) (c : Context) {added globals : List (String × String)}
    (hperm : globals.Perm (c.config.globals ++ added)) (hnodup : (globals.map Prod.fst).Nodup) :
    (∀ v, (f.evaluate c.globals c.cwd).value = .ok v →
      f.evaluate (c.withGlobals globals).globals c.cwd = f.evaluate c.globals c.cwd) ∧
    (∀ path what, (f.evaluate c.globals c.cwd).value = .error (.unsupported path what) →
      f.evaluate (c.withGlobals globals).globals c.cwd = f.evaluate c.globals c.cwd) ∧
    (∀ (path name : String) (line : Nat) (generated : Option String),
      (f.evaluate c.globals c.cwd).value =
        .error (.compile path s!"{name} is not defined (line {line})" generated) →
      name ∉ added.map Prod.fst →
      f.evaluate (c.withGlobals globals).globals c.cwd = f.evaluate c.globals c.cwd) ∧
    ∀ e ∈ c.fixedNames, ∀ line,
      nameValue ⟨f.path, (c.withGlobals globals).globals, c.cwd⟩ e.1 line = .ok e.2 := by
  have hadds := Context.adds_globals hperm hnodup
  rcases evaluate_eq_or_missing hadds f c.cwd with hsame | ⟨missing, hmissing, at', hv⟩
  · exact ⟨fun _ _ => hsame, fun _ _ _ => hsame, fun _ _ _ _ _ _ => hsame,
      fun e he line => Context.nameValue_fixed he globals _ _ line⟩
  · refine ⟨fun v h => ?_, fun path what h => ?_, fun path name line generated h hname => ?_,
      fun e he line => Context.nameValue_fixed he globals _ _ line⟩
    · cases hv.symm.trans h
    · cases hv.symm.trans h
    · have hmessage := (Rejection.compile.inj (Except.error.inj (hv.symm.trans h))).2.1
      exact absurd (missing_inj hmessage ▸ hmissing) hname

/-! A literal that uses a name of the configuration and one of the library, and a configuration to
which a new name and the one of the library are added. -/

def teamFragment : Fragment where
  path := "x.js"
  properties :=
    [.value 1 (.fixed "name") (.name 1 "TEAM"), .value 1 (.fixed "description") (.name 1 "root")]

def teamContext : Context := ⟨{ globals := [("TEAM", "core")] }, "/", "/home"⟩

def cityGlobals : List (String × String) :=
  [("CITY", "north"), ("TEAM", "core"), ("root", "/elsewhere")]

def teamValue : Value :=
  .object ⟨[("name", .string "core"), ("description", .string teamContext.rootDir),
    ("filePath", .string "x.js")]⟩

theorem evaluate_withGlobals_of_root_added :
    cityGlobals.Perm (teamContext.config.globals ++ [("CITY", "north"), ("root", "/elsewhere")]) ∧
    (cityGlobals.map Prod.fst).Nodup ∧
    (teamFragment.evaluate teamContext.globals teamContext.cwd).value = .ok teamValue ∧
    teamFragment.evaluate (teamContext.withGlobals cityGlobals).globals teamContext.cwd =
      teamFragment.evaluate teamContext.globals teamContext.cwd ∧
    ("root", .string teamContext.rootDir) ∈ teamContext.fixedNames ∧
    nameValue ⟨"x.js", (teamContext.withGlobals cityGlobals).globals, teamContext.cwd⟩ "root" 1 =
      .ok (.string teamContext.rootDir) := by
  have hperm : cityGlobals.Perm
      (teamContext.config.globals ++ [("CITY", "north"), ("root", "/elsewhere")]) := by decide
  have hnodup : (cityGlobals.map Prod.fst).Nodup := by decide
  have hv : (teamFragment.evaluate teamContext.globals teamContext.cwd).value = .ok teamValue := rfl
  have hroot : ("root", .string teamContext.rootDir) ∈ teamContext.fixedNames := by
    simp [Context.fixedNames, Context.libraryNames]
  have h := evaluate_withGlobals teamFragment teamContext hperm hnodup
  exact ⟨hperm, hnodup, hv, h.1 _ hv, hroot, h.2.2.2 _ hroot 1⟩

end Literal

end CommandFiles
