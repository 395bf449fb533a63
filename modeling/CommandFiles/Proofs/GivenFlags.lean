import CommandFiles.Proofs.MatchRun

/-! # A global flag among the arguments of a level

Where an argument is read, it does not matter whether a global flag was noted before: the same
happens, and what was given differs at that flag alone. A level is read in two stages. As long as
flags are looked for, the flag is noted wherever it stands; behind the first argument without a flag
it is one more of those. -/
namespace CommandFiles.CommandLine

open Interface (globalFlags helpParameter positional)

/-! ## What was given -/

section Given

variable {key k : String} {v w : Given} {g g' a : List (String × Given)} {p : Parameter}
  {values : List String}

/-- Two accounts of what was given that differ at one parameter only. -/
structure DiffersAt (key : String) (v : Given) (g g' : List (String × Given)) : Prop where
  here : g'.lookup key = some v
  elsewhere : ∀ k, k ≠ key → g'.lookup k = g.lookup k

/-- Values go behind the values that were given before; a flag replaces what was given. -/
def joined : Option Given → Given → Given
  | some (.values old), .values new => .values (old ++ new)
  | _, v => v

theorem lookup_put_of_ne (h : k ≠ key) : (put key v g).lookup k = g.lookup k := by
  induction g with
  | nil => simp [put, h]
  | cons entry rest ih =>
    obtain ⟨j, old⟩ := entry
    by_cases hj : j = key
    · subst hj
      have hk : (k == j) = false := by simpa using h
      cases old <;> cases v <;> simp [put, List.lookup_cons, hk]
    · simp only [put, if_neg hj, List.lookup_cons, ih]

theorem lookup_put_self : (put key v g).lookup key = some (joined (g.lookup key) v) := by
  induction g with
  | nil => simp [put, joined]
  | cons entry rest ih =>
    obtain ⟨j, old⟩ := entry
    by_cases hj : j = key
    · subst hj
      cases old <;> cases v <;> simp [put, joined]
    · have hk : (key == j) = false := by simpa using Ne.symm hj
      simp only [put, if_neg hj, List.lookup_cons, hk, ih]

theorem DiffersAt.put (h : DiffersAt key v g g') (hk : k ≠ key) :
    DiffersAt key v (put k w g) (put k w g') where
  here := by rw [lookup_put_of_ne hk.symm, h.here]
  elsewhere j hj := by
    by_cases hjk : j = k
    · subst hjk
      rw [lookup_put_self, lookup_put_self, h.elsewhere j hj]
    · rw [lookup_put_of_ne hjk, lookup_put_of_ne hjk, h.elsewhere j hj]

theorem differsAt_put_flag (key : String) (g : List (String × Given)) :
    DiffersAt key .flag g (CommandLine.put key .flag g) where
  here := by rw [lookup_put_self]; cases g.lookup key with
    | none => rfl
    | some old => cases old <;> rfl
  elsewhere _ hk := lookup_put_of_ne hk

theorem differsAt_put_put {texts : List String} (more : List String) (h : g.lookup key = none) :
    DiffersAt key (.values more) (CommandLine.put key (.values texts) g)
      (CommandLine.put key (.values more) g) where
  here := by rw [lookup_put_self, h]; rfl
  elsewhere _ hk := by rw [lookup_put_of_ne hk, lookup_put_of_ne hk]

theorem noteFlag_eq_ok :
    noteFlag p g = .ok a ↔
      p.action ≠ .help ∧ g.lookup p.id = none ∧ a = CommandLine.put p.id .flag g := by
  unfold noteFlag
  by_cases hh : p.action = .help
  · simp [hh]
  · cases hg : g.lookup p.id <;> simp [hh, eq_comm]

theorem noteValues_eq_ok :
    noteValues p values g = .ok a ↔
      (values.isEmpty && p.action ≠ .positional) = false ∧
        (p.action = .set && (g.lookup p.id).isSome) = false ∧ checkValues p values = .ok () ∧
        a = CommandLine.put p.id (.values values) g := by
  unfold noteValues
  cases he : (values.isEmpty && decide (p.action ≠ .positional)) with
  | true => exact ⟨fun h => (nomatch h), fun h => (nomatch h.1)⟩
  | false =>
  cases hr : (decide (p.action = .set) && (g.lookup p.id).isSome) with
  | true => exact ⟨fun h => (nomatch h), fun h => (nomatch h.2.1)⟩
  | false =>
  cases hc : checkValues p values with
  | error e => exact ⟨fun h => (nomatch h), fun h => (nomatch h.2.2.1)⟩
  | ok u => exact ⟨fun h => ⟨rfl, rfl, rfl, (Except.ok.inj h).symm⟩, fun h => h.2.2.2 ▸ rfl⟩

theorem DiffersAt.noteFlag (h : DiffersAt key v g g') (hp : p.id ≠ key)
    (hn : CommandLine.noteFlag p g = .ok a) :
    ∃ a', CommandLine.noteFlag p g' = .ok a' ∧ DiffersAt key v a a' := by
  obtain ⟨hh, hg, rfl⟩ := noteFlag_eq_ok.mp hn
  exact ⟨_, noteFlag_eq_ok.mpr ⟨hh, (h.elsewhere _ hp).trans hg, rfl⟩, h.put hp⟩

theorem DiffersAt.noteValues (h : DiffersAt key v g g') (hp : p.id ≠ key)
    (hn : CommandLine.noteValues p values g = .ok a) :
    ∃ a', CommandLine.noteValues p values g' = .ok a' ∧ DiffersAt key v a a' := by
  obtain ⟨he, hr, hc, rfl⟩ := noteValues_eq_ok.mp hn
  exact ⟨_, noteValues_eq_ok.mpr ⟨he, by rw [h.elsewhere _ hp, hr], hc, rfl⟩, h.put hp⟩

/-- Defaults are put in alike, as long as the parameter that differs has none. -/
theorem DiffersAt.addDefaults {ps : List Parameter} (h : DiffersAt key v g g')
    (hps : ∀ p ∈ ps, p.id = key → p.defaults = [])
    (ha : CommandLine.addDefaults ps g = .ok a) :
    ∃ a', CommandLine.addDefaults ps g' = .ok a' ∧ DiffersAt key v a a' := by
  induction ps generalizing g g' with
  | nil => exact ⟨g', rfl, Except.ok.inj ha ▸ h⟩
  | cons p rest ih =>
    have hrest := fun q hq => hps q (List.mem_cons_of_mem _ hq)
    rw [CommandLine.addDefaults] at ha ⊢
    by_cases hp : p.id = key
    · have hd := hps p List.mem_cons_self hp
      simp only [hd, List.isEmpty_nil, Bool.true_or, if_true] at ha ⊢
      exact ih h hrest ha
    · rw [h.elsewhere _ hp]
      split at ha
      · next hskip => rw [if_pos hskip]; exact ih h hrest ha
      · next hkeep =>
        obtain ⟨_, hc, ha⟩ := except_bind_eq_ok.mp ha
        obtain ⟨a', ha', hd⟩ := ih (h.put hp) hrest ha
        rw [if_neg hkeep, hc]
        exact ⟨a', ha', hd⟩

theorem lookup_addDefaults {ps : List Parameter} (hps : ∀ p ∈ ps, p.id = key → p.defaults = [])
    (ha : addDefaults ps g = .ok a) : a.lookup key = g.lookup key := by
  induction ps generalizing g with
  | nil => rw [Except.ok.inj ha]
  | cons p rest ih =>
    have hrest := fun q hq => hps q (List.mem_cons_of_mem _ hq)
    rw [addDefaults] at ha
    split at ha
    · exact ih hrest ha
    · next hkeep =>
      obtain ⟨_, _, ha⟩ := except_bind_eq_ok.mp ha
      have hp : key ≠ p.id := by
        rintro rfl
        simp [hps p List.mem_cons_self rfl] at hkeep
      rw [ih hrest ha, lookup_put_of_ne hp]

end Given

/-! ## Global flags -/

/-- A flag that every command accepts: one that selects a runtime, or the one that asks for more
output. -/
inductive Modifier where
  | runtime (r : Runtime)
  | verbose
  deriving DecidableEq, Repr

namespace Modifier

/-- The name of the flag. -/
def id : Modifier → String
  | runtime r => r.flag
  | verbose => Naming.verboseName

/-- The flag as it is typed. -/
def text (m : Modifier) : String := "--" ++ m.id

/-- The parameter of the flag. -/
def parameter (m : Modifier) : Parameter :=
  { id := m.id, long := some m.id, action := .flag, isGlobal := true
    help := match m with
      | runtime r => some s!"run against the {r.name} runtime"
      | verbose => some "show debug output" }

variable (m : Modifier)

@[simp] theorem id_parameter : m.parameter.id = m.id := rfl

theorem parameter_mem : m.parameter ∈ globalFlags := by
  cases m with
  | runtime r => cases r <;> decide
  | verbose => decide

theorem id_mem_reserved : m.id ∈ Naming.reserved := by
  cases m with
  | runtime r => cases r <;> decide
  | verbose => decide

theorem id_ne_positional : m.id ≠ Naming.positionalName := by
  cases m with
  | runtime r => cases r <;> decide
  | verbose => decide

theorem id_ne_help : m.id ≠ Naming.helpName := by
  cases m with
  | runtime r => cases r <;> decide
  | verbose => decide

theorem text_ne_help : m.text ≠ Naming.helpName := by
  cases m with
  | runtime r => cases r <;> decide
  | verbose => decide

theorem look_text : look m.text = .long m.id none := by
  cases m with
  | runtime r => cases r <;> rfl
  | verbose => rfl

end Modifier

/-! ## How arguments look -/

theorem eq_of_look_escape {text : String} (h : look text = .escape) : text = "--" := by
  unfold look at h
  split at h
  · next ht => rw [← String.ofList_toList (s := text), ht]
  · dsimp only at h
    split at h <;> cases h
  · cases h
  · cases h

theorem eq_of_look_long {text name : String} (h : look text = .long name none) :
    text = "--" ++ name := by
  unfold look at h
  split at h
  · cases h
  · next rest _ ht =>
    dsimp only at h
    split at h
    · next hrest =>
      have htake : rest.takeWhile (· != '=') = rest := by
        have happend := List.takeWhile_append_dropWhile (p := (· != '=')) (l := rest)
        rwa [hrest, List.append_nil] at happend
      cases h
      rw [htake, ← String.toList_inj, ht]
      simp
    · cases h
  · cases h
  · cases h

/-! ## The parameters of a level -/

/-- Whether a level offers a global flag, and nothing else by its name; likewise for the arguments
without a flag, if it takes them. -/
structure Offers (m : Modifier) (ps : List Parameter) : Prop where
  mem : m.parameter ∈ ps
  eq_of_id : ∀ p ∈ ps, p.id = m.id → p = m.parameter
  eq_of_long : ∀ p ∈ ps, p.long = some m.id → p = m.parameter
  positional_of_id : ∀ p ∈ ps, p.id = Naming.positionalName → p = positional
  positional_of_action : ∀ p ∈ ps, p.action = .positional → p = positional

namespace Offers

variable {m : Modifier} {ps : List Parameter} (h : Offers m ps)

include h

theorem find?_long : (ps.find? fun p => p.long = some m.id) = some m.parameter := by
  cases hf : ps.find? fun p => p.long = some m.id with
  | none => exact absurd (decide_eq_true rfl) (List.find?_eq_none.mp hf _ h.mem)
  | some p =>
    have hl : p.long = some m.id := by simpa using List.find?_some hf
    rw [h.eq_of_long p (List.mem_of_find?_eq_some hf) hl]

theorem defaults_of_id {p : Parameter} (hp : p ∈ ps) (he : p.id = m.id) : p.defaults = [] := by
  rw [h.eq_of_id p hp he]
  rfl

theorem defaults_of_positional {p : Parameter} (hp : p ∈ ps)
    (he : p.id = Naming.positionalName) : p.defaults = [] := by
  rw [h.positional_of_id p hp he]
  rfl

theorem id_ne_of_short {p : Parameter} {c : Char} (hp : p ∈ ps) (hs : p.short = some c) :
    p.id ≠ m.id ∧ p.id ≠ Naming.positionalName := by
  refine ⟨fun he => ?_, fun he => ?_⟩
  · rw [h.eq_of_id p hp he] at hs
    cases hs
  · rw [h.positional_of_id p hp he] at hs
    cases hs

theorem id_ne_of_long {p : Parameter} {name : String} (hp : p ∈ ps) (hl : p.long = some name)
    (hn : name ≠ m.id) : p.id ≠ m.id ∧ p.id ≠ Naming.positionalName := by
  refine ⟨fun he => ?_, fun he => ?_⟩
  · rw [h.eq_of_id p hp he] at hl
    exact hn (Option.some.inj hl).symm
  · rw [h.positional_of_id p hp he] at hl
    cases hl

end Offers

end CommandFiles.CommandLine
