import CommandFiles.CommandLine.Match
import Mathlib.Data.List.Forall2

/-! # How arguments are read

Arguments that are accepted are read in one run through interfaces. `Reading` is that run as a
relation: it keeps, beside the levels, the interface each level was read for, and it holds exactly
where `readArguments` accepts. -/
namespace CommandFiles.CommandLine

/-- Whether the next argument may name a subcommand. -/
def Progress.looksDown (s : Progress) : Bool := !s.onlyValues && !s.isOpen

/-- Whether an argument names no subcommand that is looked for, and asks for no help. -/
def StaysAt (i : Interface) (s : Progress) (text : String) : Prop :=
  s.looksDown = true → i.find? text = none ∧ (text = Naming.helpName → i.subcommands = [])

/-- A run that reads arguments to their end, with the interface of every level. -/
inductive Reading (inherited : List Parameter) :
    Interface → Progress → List String → List (Interface × Level) → Prop where
  | done {i s own} :
      s.finish i.name (parametersAt i inherited) = .ok own → Reading inherited i s [] [(i, own)]
  /-- The argument names a subcommand, which takes all arguments behind it. -/
  | down {i s text sub rest below own} :
      s.looksDown = true → i.find? text = some sub → Reading inherited sub {} rest below →
      s.finish i.name (parametersAt i inherited) = .ok own →
      Reading inherited i s (text :: rest) ((i, own) :: below)
  /-- The argument belongs to this level. -/
  | along {i s s' text rest run} :
      StaysAt i s text → readArgument i (parametersAt i inherited) text s = .ok s' →
      Reading inherited i s' rest run → Reading inherited i s (text :: rest) run

section Except

variable {ε α β : Type} {x : Except ε α} {f : α → Except ε β} {b : β}

theorem except_bind_eq_ok : (x >>= f) = .ok b ↔ ∃ a, x = .ok a ∧ f a = .ok b := by
  cases x with
  | error e => exact ⟨fun h => (nomatch h), fun ⟨a, h, _⟩ => (nomatch h)⟩
  | ok a => exact ⟨fun h => ⟨a, rfl, h⟩, fun ⟨a', h, hb⟩ => Except.ok.inj h ▸ hb⟩

theorem except_pure_eq_ok {a c : α} : (pure a : Except ε α) = .ok c ↔ a = c :=
  ⟨Except.ok.inj, congrArg Except.ok⟩

/-- A list is worked through if each of its items is. -/
theorem except_mapM_eq_ok {f : α → Except ε β} {as : List α} {bs : List β} :
    as.mapM f = .ok bs ↔ List.Forall₂ (fun a b => f a = .ok b) as bs := by
  induction as generalizing bs with
  | nil => rw [List.mapM_nil, except_pure_eq_ok, List.forall₂_nil_left_iff, eq_comm]
  | cons a rest ih =>
    rw [List.mapM_cons, except_bind_eq_ok]
    constructor
    · rintro ⟨b, hb, h⟩
      obtain ⟨more, hmore, h⟩ := except_bind_eq_ok.mp h
      obtain rfl := except_pure_eq_ok.mp h
      exact .cons hb (ih.mp hmore)
    · intro h
      cases h with
      | cons hb hmore => exact ⟨_, hb, except_bind_eq_ok.mpr ⟨_, ih.mpr hmore, rfl⟩⟩

theorem exists_of_except_mapM {f : α → Except ε β} {as : List α} {bs : List β}
    (h : as.mapM f = .ok bs) (hb : b ∈ bs) : ∃ a ∈ as, f a = .ok b := by
  have hpair := except_mapM_eq_ok.mp h
  obtain ⟨i, hi, rfl⟩ := List.getElem_of_mem hb
  have hi' : i < as.length := hpair.length_eq ▸ hi
  exact ⟨as[i], List.getElem_mem hi', hpair.get hi' hi⟩

theorem exists_of_mem_except_mapM {f : α → Except ε β} {as : List α} {bs : List β}
    (h : as.mapM f = .ok bs) {a : α} (ha : a ∈ as) : ∃ b ∈ bs, f a = .ok b := by
  have hpair := except_mapM_eq_ok.mp h
  obtain ⟨i, hi, rfl⟩ := List.getElem_of_mem ha
  have hi' : i < bs.length := hpair.length_eq ▸ hi
  exact ⟨bs[i], List.getElem_mem hi', hpair.get hi hi'⟩

end Except

section Run

variable {inherited : List Parameter} {i : Interface} {s : Progress} {text : String}
  {rest : List String} {levels : List Level}

theorem readArguments_down {sub : Interface} (hd : s.looksDown = true)
    (hf : i.find? text = some sub) :
    readArguments inherited i s (text :: rest) = (do
      let below ← readArguments inherited sub {} rest
      let own ← s.finish i.name (parametersAt i inherited)
      return own :: below) := by
  rw [readArguments]
  simp only [show (!s.onlyValues && !s.isOpen) = true from hd, if_true, hf]

theorem readArguments_along (h : StaysAt i s text) :
    readArguments inherited i s (text :: rest) = (do
      let s ← readArgument i (parametersAt i inherited) text s
      readArguments inherited i s rest) := by
  rw [readArguments]
  cases hd : s.looksDown with
  | false =>
    simp only [show (!s.onlyValues && !s.isOpen) = false from hd, Bool.false_eq_true, if_false,
      Bool.false_and]
  | true =>
    obtain ⟨hf, hh⟩ := h hd
    have hhelp : (decide (text = Naming.helpName) && !i.subcommands.isEmpty) = false := by
      by_cases ht : text = Naming.helpName
      · simp [hh ht]
      · simp [ht]
    simp only [show (!s.onlyValues && !s.isOpen) = true from hd, if_true, hf, Bool.true_and,
      hhelp, Bool.false_eq_true, if_false]

/-- A demand for help is no argument of its level. -/
theorem readArguments_help (hd : s.looksDown = true) (hf : i.find? text = none)
    (ht : text = Naming.helpName) (hi : i.subcommands ≠ []) :
    readArguments inherited i s (text :: rest) ≠ .ok levels := by
  have hne : i.subcommands.isEmpty = false := by simpa using hi
  rw [readArguments]
  simp [show (!s.onlyValues && !s.isOpen) = true from hd, ht ▸ hf, ht, hne]

/-- What an argument can be at a level. -/
theorem staysAt_or (i : Interface) (s : Progress) (text : String) :
    StaysAt i s text ∨ (s.looksDown = true ∧ ∃ sub, i.find? text = some sub) ∨
      (s.looksDown = true ∧ i.find? text = none ∧ text = Naming.helpName ∧ i.subcommands ≠ []) := by
  cases hd : s.looksDown with
  | false => exact .inl fun h => absurd (hd.symm.trans h) (by simp)
  | true =>
    cases hf : i.find? text with
    | some sub => exact .inr (.inl ⟨rfl, sub, rfl⟩)
    | none =>
      by_cases hh : text = Naming.helpName ∧ i.subcommands ≠ []
      · exact .inr (.inr ⟨rfl, rfl, hh⟩)
      · exact .inl fun _ => ⟨hf, fun ht => Classical.byContradiction fun hi => hh ⟨ht, hi⟩⟩

theorem exists_reading : ∀ {arguments : List String} {i : Interface} {s : Progress}
    {levels : List Level}, readArguments inherited i s arguments = .ok levels →
      ∃ run, Reading inherited i s arguments run ∧ run.map Prod.snd = levels
  | [], i, s, levels, h => by
    rw [readArguments] at h
    obtain ⟨own, hown, h⟩ := except_bind_eq_ok.mp h
    obtain rfl := except_pure_eq_ok.mp h
    exact ⟨_, .done hown, rfl⟩
  | text :: rest, i, s, levels, h => by
    rcases staysAt_or i s text with hs | ⟨hd, sub, hf⟩ | ⟨hd, hf, ht, hi⟩
    · rw [readArguments_along hs] at h
      obtain ⟨s', hs', h⟩ := except_bind_eq_ok.mp h
      obtain ⟨run, hrun, he⟩ := exists_reading h
      exact ⟨run, .along hs hs' hrun, he⟩
    · rw [readArguments_down hd hf] at h
      obtain ⟨below, hbelow, h⟩ := except_bind_eq_ok.mp h
      obtain ⟨own, hown, h⟩ := except_bind_eq_ok.mp h
      obtain rfl := except_pure_eq_ok.mp h
      obtain ⟨run, hrun, rfl⟩ := exists_reading hbelow
      exact ⟨(i, own) :: run, .down hd hf hrun hown, rfl⟩
    · exact absurd h (readArguments_help hd hf ht hi)

theorem Reading.readArguments_eq {arguments : List String} {run : List (Interface × Level)}
    (h : Reading inherited i s arguments run) :
    readArguments inherited i s arguments = .ok (run.map Prod.snd) := by
  induction h with
  | done hown =>
    rw [readArguments, hown]
    rfl
  | down hd hf _ hown ih =>
    rw [readArguments_down hd hf, ih, hown]
    rfl
  | along hs hs' _ ih =>
    rw [readArguments_along hs, hs']
    exact ih

/-- **A run holds exactly where arguments are accepted**, and has the same levels. -/
theorem readArguments_eq_ok {arguments : List String} :
    readArguments inherited i s arguments = .ok levels ↔
      ∃ run, Reading inherited i s arguments run ∧ run.map Prod.snd = levels :=
  ⟨exists_reading, fun ⟨_, hrun, he⟩ => he ▸ hrun.readArguments_eq⟩

theorem name_of_finish {name : String} {ps : List Parameter} {own : Level}
    (h : s.finish name ps = .ok own) : own.name = name := by
  obtain ⟨s', -, h⟩ := except_bind_eq_ok.mp h
  obtain ⟨given, -, h⟩ := except_bind_eq_ok.mp h
  exact (except_pure_eq_ok.mp h) ▸ rfl

/-- A run begins with the level of its interface. -/
theorem Reading.exists_cons {arguments : List String} {run : List (Interface × Level)}
    (h : Reading inherited i s arguments run) :
    ∃ own more, run = (i, own) :: more ∧ own.name = i.name := by
  induction h with
  | done hown => exact ⟨_, _, rfl, name_of_finish hown⟩
  | down _ _ _ hown _ => exact ⟨_, _, rfl, name_of_finish hown⟩
  | along _ _ _ ih => exact ih

end Run

end CommandFiles.CommandLine
