import CommandFiles.Proofs.GivenFlags

/-! # Stages of reading a level

A level is read looking for flags first. From the first argument without a flag on, all arguments
trail behind it. `Step` says that a step leads from one stage to another, and that it is taken just
so where one global flag more was noted before. -/
namespace CommandFiles.CommandLine

open Interface (positional)

variable {m : Modifier} {ps : List Parameter} {s s' : Progress} {key : String} {v : Given}
  {g : List (String × Given)}

/-! ## Settling and finishing -/

theorem pending_of_settle (h : s.settle = .ok s') :
    s'.pending = none ∧ s'.onlyValues = s.onlyValues := by
  unfold Progress.settle at h
  split at h
  · next hp =>
    cases h
    exact ⟨hp, rfl⟩
  · obtain ⟨a, -, h⟩ := except_bind_eq_ok.mp h
    cases h
    exact ⟨rfl, rfl⟩

theorem settle_of_pending (h : s.pending = none) : s.settle = .ok { s with isOpen := false } := by
  rw [Progress.settle, h]

/-- What settling does to what was given. -/
theorem lookup_settle (hp : ∀ p vs, s.pending = some (p, vs) → p.id ≠ key)
    (h : s.settle = .ok s') : s'.given.lookup key = s.given.lookup key := by
  unfold Progress.settle at h
  split at h
  · cases h
    rfl
  · next p vs hpending =>
    obtain ⟨a, ha, h⟩ := except_bind_eq_ok.mp h
    cases h
    obtain ⟨-, -, -, rfl⟩ := noteValues_eq_ok.mp ha
    exact lookup_put_of_ne (hp p vs hpending).symm

theorem settle_of_differsAt (hp : ∀ p vs, s.pending = some (p, vs) → p.id ≠ key)
    (hd : DiffersAt key v s.given g) (h : s.settle = .ok s') :
    ∃ g', Progress.settle { s with given := g } = .ok { s' with given := g' } ∧
      DiffersAt key v s'.given g' := by
  obtain ⟨given, pending, isOpen, onlyValues⟩ := s
  cases pending with
  | none =>
    cases h
    exact ⟨g, rfl, hd⟩
  | some pair =>
    obtain ⟨p, vs⟩ := pair
    obtain ⟨a, ha, h⟩ := except_bind_eq_ok.mp h
    cases h
    obtain ⟨a', ha', hd'⟩ := hd.noteValues (hp p vs rfl) ha
    refine ⟨a', ?_, hd'⟩
    simp only [Progress.settle, ha']
    rfl

theorem finish_eq_ok {name : String} {own : Level} :
    s.finish name ps = .ok own ↔
      ∃ s', s.settle = .ok s' ∧ ∃ a, addDefaults ps s'.given = .ok a ∧ ⟨name, a⟩ = own := by
  simp only [Progress.finish, except_bind_eq_ok, except_pure_eq_ok]

/-- A level ends alike, whatever was given for a parameter that is not pending. -/
theorem finish_of_differsAt {name : String} {own : Level}
    (hp : ∀ p vs, s.pending = some (p, vs) → p.id ≠ key)
    (hps : ∀ p ∈ ps, p.id = key → p.defaults = []) (hd : DiffersAt key v s.given g)
    (h : s.finish name ps = .ok own) :
    ∃ a, Progress.finish { s with given := g } name ps = .ok ⟨own.name, a⟩ ∧
      DiffersAt key v own.given a := by
  obtain ⟨s', hs', a, ha, rfl⟩ := finish_eq_ok.mp h
  obtain ⟨g', hg', hd'⟩ := settle_of_differsAt hp hd hs'
  obtain ⟨a', ha', hda⟩ := hd'.addDefaults hps ha
  exact ⟨a', finish_eq_ok.mpr ⟨_, hg', a', ha', rfl⟩, hda⟩

/-! ## Stages -/

/-- Flags are looked for, and neither a global flag nor an argument without a flag was given. -/
structure Looking (m : Modifier) (s : Progress) : Prop where
  onlyValues : s.onlyValues = false
  flag : s.given.lookup m.id = none
  rest : s.given.lookup Naming.positionalName = none
  pending : ∀ p vs, s.pending = some (p, vs) → p.id ≠ m.id ∧ p.id ≠ Naming.positionalName

/-- Arguments without a flag were given, and all that follow count among them. -/
structure Trailing (m : Modifier) (ps : List Parameter) (texts : List String) (s : Progress) :
    Prop where
  onlyValues : s.onlyValues = true
  flag : s.given.lookup m.id = none
  rest : s.given.lookup Naming.positionalName = none
  pending : s.pending = some (positional, texts)
  nonempty : texts ≠ []
  taken : (ps.find? fun p => p.action = .positional) = some positional

/-- One of the two stages. -/
def Staged (m : Modifier) (ps : List Parameter) (s : Progress) : Prop :=
  Looking m s ∨ ∃ texts, Trailing m ps texts s

theorem looking_init : Looking m {} where
  onlyValues := rfl
  flag := rfl
  rest := rfl
  pending _ _ h := nomatch h

theorem Staged.pending (h : Staged m ps s) : ∀ p vs, s.pending = some (p, vs) → p.id ≠ m.id := by
  intro p vs hp
  rcases h with h | ⟨texts, h⟩
  · exact (h.pending p vs hp).1
  · rw [h.pending] at hp
    cases hp
    exact m.id_ne_positional.symm

/-! ## Steps -/

/-- A step from one stage to another, which is taken just so where a global flag was noted. -/
def Step (m : Modifier) (A B : Progress → Prop) (f : Progress → Except Refusal Progress) : Prop :=
  ∀ s s' g, A s → DiffersAt m.id .flag s.given g → f s = .ok s' →
    B s' ∧ ∃ g', f { s with given := g } = .ok { s' with given := g' } ∧
      DiffersAt m.id .flag s'.given g'

section Step

variable {A B C : Progress → Prop} {f h : Progress → Except Refusal Progress}

theorem Step.bind (hf : Step m A B f) (hh : Step m B C h) :
    Step m A C (fun s => f s >>= h) := by
  intro s s' g ha hd hs
  obtain ⟨t, ht, hs⟩ := except_bind_eq_ok.mp hs
  obtain ⟨hb, g', hg', hd'⟩ := hf s t g ha hd ht
  obtain ⟨hc, g'', hg'', hd''⟩ := hh t s' g' hb hd' hs
  exact ⟨hc, g'', except_bind_eq_ok.mpr ⟨_, hg', hg''⟩, hd''⟩

theorem Step.mono (hf : Step m A B f) (hb : ∀ s, B s → C s) : Step m A C f := by
  intro s s' g ha hd hs
  obtain ⟨h₁, h₂⟩ := hf s s' g ha hd hs
  exact ⟨hb s' h₁, h₂⟩

theorem Step.stage (hf : Step m A B f) (ha : A s) (hs : f s = .ok s') : B s' :=
  (hf s s' _ ha (differsAt_put_flag m.id s.given) hs).1

theorem Step.looking (hf : Step m A (Looking m) f) : Step m A (Staged m ps) f :=
  hf.mono fun _ => Or.inl

theorem Step.trailing {texts : List String} (hf : Step m A (Trailing m ps texts) f) :
    Step m A (Staged m ps) f :=
  hf.mono fun _ hs => Or.inr ⟨texts, hs⟩

/-- A step that is another one at a given progress. -/
theorem Step.read {k : Progress → Except Refusal Progress} (hf : Step m A B f)
    (hk : ∀ g, k { s with given := g } = f { s with given := g }) (ha : A s)
    (hd : DiffersAt m.id .flag s.given g) (hs : k s = .ok s') :
    B s' ∧ ∃ g', k { s with given := g } = .ok { s' with given := g' } ∧
      DiffersAt m.id .flag s'.given g' := by
  rw [show k s = f s from hk s.given] at hs
  rw [hk]
  exact hf s s' g ha hd hs

/-- A step that changes nothing that was given. -/
theorem Step.of_given {k : Progress → Progress}
    (hk : ∀ s g, k { s with given := g } = { k s with given := g }) (hs : ∀ s, A s → B (k s)) :
    Step m A B (fun s => .ok (k s)) := by
  intro s s' g ha hd h
  obtain rfl := Except.ok.inj h
  have hgiven : (k s).given = s.given :=
    (congrArg Progress.given (hk s s.given) : (k { s with given := s.given }).given = _)
  exact ⟨hs s ha, g, congrArg Except.ok (hk s g), by rwa [hgiven]⟩

/-- A refusal is no step. -/
theorem Step.error {e : Refusal} : Step m A B (fun _ => .error e) :=
  fun _ _ _ _ _ h => nomatch h

end Step

/-- A note in what was given, on a parameter other than the flag and the arguments without one. -/
theorem step_note {p : Parameter} {more : Given}
    {note : List (String × Given) → Except Refusal (List (String × Given))}
    (hput : ∀ g a, note g = .ok a → a = put p.id more g)
    (hnote : ∀ g g' a, DiffersAt m.id .flag g g' → note g = .ok a →
      ∃ a', note g' = .ok a' ∧ DiffersAt m.id .flag a a')
    (hp : p.id ≠ m.id ∧ p.id ≠ Naming.positionalName) :
    Step m (Looking m) (Looking m)
      (fun s => note s.given >>= fun a => pure { s with given := a }) := by
  intro s s' g hs hd h
  obtain ⟨a, ha, h⟩ := except_bind_eq_ok.mp h
  obtain rfl := except_pure_eq_ok.mp h
  have hlooking : Looking m { s with given := a } := by
    obtain rfl := hput _ _ ha
    refine ⟨hs.onlyValues, ?_, ?_, hs.pending⟩
    · exact (lookup_put_of_ne hp.1.symm).trans hs.flag
    · exact (lookup_put_of_ne hp.2.symm).trans hs.rest
  obtain ⟨a', ha', hd'⟩ := hnote _ _ _ hd ha
  exact ⟨hlooking, a', except_bind_eq_ok.mpr ⟨a', ha', rfl⟩, hd'⟩

theorem step_noteFlag {p : Parameter} (hp : p.id ≠ m.id ∧ p.id ≠ Naming.positionalName) :
    Step m (Looking m) (Looking m)
      (fun s => noteFlag p s.given >>= fun a => pure { s with given := a }) :=
  step_note (fun _ _ h => (noteFlag_eq_ok.mp h).2.2) (fun _ _ _ hd h => hd.noteFlag hp.1 h) hp

theorem step_noteValues {p : Parameter} {values : List String}
    (hp : p.id ≠ m.id ∧ p.id ≠ Naming.positionalName) :
    Step m (Looking m) (Looking m)
      (fun s => noteValues p values s.given >>= fun a => pure { s with given := a }) :=
  step_note (fun _ _ h => (noteValues_eq_ok.mp h).2.2.2) (fun _ _ _ hd h => hd.noteValues hp.1 h) hp

theorem Looking.settle (hs : Looking m s) (h : s.settle = .ok s') : Looking m s' := by
  obtain ⟨hpending, honly⟩ := pending_of_settle h
  refine ⟨honly.trans hs.onlyValues, ?_, ?_, fun p vs hp => ?_⟩
  · exact (lookup_settle (fun p vs hp => (hs.pending p vs hp).1) h).trans hs.flag
  · exact (lookup_settle (fun p vs hp => (hs.pending p vs hp).2) h).trans hs.rest
  · rw [hpending] at hp
    cases hp

theorem step_settle : Step m (Looking m) (Looking m) Progress.settle :=
  fun _ _ _ hs hd h =>
    ⟨hs.settle h, settle_of_differsAt (fun p vs hp => (hs.pending p vs hp).1) hd h⟩

theorem step_flag {p : Parameter} (hp : p.id ≠ m.id ∧ p.id ≠ Naming.positionalName) :
    Step m (Looking m) (Looking m) (·.flag p) :=
  step_settle.bind (step_noteFlag hp)

theorem step_option {p : Parameter} {attached : Option String}
    (hp : p.id ≠ m.id ∧ p.id ≠ Naming.positionalName) :
    Step m (Looking m) (Looking m) (·.option p attached) := by
  cases attached with
  | some value => exact step_settle.bind (step_noteValues hp)
  | none =>
    refine step_settle.bind (Step.of_given (fun _ _ => rfl) fun s hs => ?_)
    refine ⟨hs.onlyValues, hs.flag, hs.rest, fun q vs hq => ?_⟩
    cases hq
    exact hp

theorem step_value (text : String) :
    Step m (Looking m) (Looking m) (fun s => .ok (s.value text)) := by
  refine Step.of_given (fun s g => ?_) fun s hs => ?_
  · obtain ⟨given, pending, isOpen, onlyValues⟩ := s
    cases pending <;> rfl
  · obtain ⟨given, pending, isOpen, onlyValues⟩ := s
    cases pending with
    | none => exact hs
    | some pair =>
      refine ⟨hs.onlyValues, hs.flag, hs.rest, fun q vs hq => ?_⟩
      cases hq
      exact hs.pending pair.1 pair.2 rfl

/-- The first argument without a flag. -/
theorem step_argument (text : String)
    (ht : (ps.find? fun p => p.action = .positional) = some positional) :
    Step m (Looking m) (Trailing m ps [text]) (·.argument positional text) := by
  have hlast : ∀ s, Looking m s → Trailing m ps [text]
      { s with pending := some (positional, [text]), isOpen := false, onlyValues := true } :=
    fun s hs => ⟨rfl, hs.flag, hs.rest, rfl, List.cons_ne_nil _ _, ht⟩
  intro s s' g hs hd h
  obtain ⟨given, pending, isOpen, onlyValues⟩ := s
  cases pending with
  | none =>
    cases h
    exact ⟨hlast _ hs, g, rfl, hd⟩
  | some pair =>
    obtain ⟨q, vs⟩ := pair
    have hq : q.id ≠ positional.id := (hs.pending q vs rfl).2
    simp only [Progress.argument, if_neg hq] at h ⊢
    obtain ⟨t, ht', h⟩ := except_bind_eq_ok.mp h
    cases h
    have hlooking := hs.settle ht'
    obtain ⟨g', hg', hd'⟩ := settle_of_differsAt (fun p vs hp => (hs.pending p vs hp).1) hd ht'
    refine ⟨⟨rfl, hlooking.flag, hlooking.rest, rfl, List.cons_ne_nil _ _, ht⟩, g', ?_, hd'⟩
    rw [hg']
    rfl

/-! ## Arguments -/

theorem step_readLong {name : String} {attached : Option String} (ho : Offers m ps)
    (hn : name = m.id → attached ≠ none) :
    Step m (Looking m) (Looking m) (readLong ps name attached) := by
  unfold readLong
  cases hf : ps.find? fun p => p.long = some name with
  | none => exact Step.error
  | some p =>
    have hmem := List.mem_of_find?_eq_some hf
    have hlong : p.long = some name := by simpa using List.find?_some hf
    by_cases hname : name = m.id
    · -- the flag itself, with a value attached to it
      obtain rfl := ho.eq_of_long p hmem (hname ▸ hlong)
      have hsome : attached.isSome = true := Option.isSome_iff_ne_none.mpr (hn hname)
      simp only [show m.parameter.takesValue = false from rfl, Bool.false_eq_true, if_false, hsome,
        if_true]
      exact Step.error
    · have hp := ho.id_ne_of_long hmem hlong hname
      by_cases ht : p.takesValue = true
      · simp only [ht, if_true]
        exact step_option hp
      · by_cases ha : attached.isSome = true
        · simp only [ht, ha, if_true]
          exact Step.error
        · simp only [ht, ha]
          exact step_flag hp

theorem step_readShorts (ho : Offers m ps) :
    ∀ flags, Step m (Looking m) (Looking m) (readShorts ps flags)
  | [] => fun s s' g hs hd h => by
    cases h
    exact ⟨hs, g, rfl, hd⟩
  | c :: rest => by
    have heq : readShorts ps (c :: rest) = _ := funext fun s => readShorts.eq_2 ps s c rest
    rw [heq]
    cases hf : ps.find? fun p => p.short = some c with
    | none => exact Step.error
    | some p =>
      have hshort : p.short = some c := by simpa using List.find?_some hf
      have hp := ho.id_ne_of_short (List.mem_of_find?_eq_some hf) hshort
      by_cases ht : p.takesValue = true
      · simp only [ht, if_true]
        exact step_option hp
      · simp only [ht]
        exact (step_flag hp).bind (step_readShorts ho rest)

theorem step_readPlain {i : Interface} {text : String} (ho : Offers m ps) :
    Step m (Looking m) (Staged m ps) (readPlain i ps text) := by
  intro s s' g hs hd h
  by_cases hopen : s.isOpen = true
  · refine (step_value text).looking.read (fun g => ?_) hs hd h
    simp only [readPlain, hopen, hs.onlyValues, Bool.not_false, Bool.and_true, if_true]
  · cases hf : ps.find? fun p => p.action = .positional with
    | none =>
      simp only [readPlain, hopen, Bool.false_and, Bool.false_eq_true, if_false, hf,
        hs.onlyValues] at h
      split at h <;> cases h
    | some p =>
      have haction : p.action = .positional := by simpa using List.find?_some hf
      obtain rfl := ho.positional_of_action p (List.mem_of_find?_eq_some hf) haction
      refine (step_argument text hf).trailing.read (fun g => ?_) hs hd h
      simp only [readPlain, hopen, Bool.false_and, Bool.false_eq_true, if_false, hf]

/-- A later argument, whatever it looks like. -/
theorem Trailing.readArgument_eq {i : Interface} {texts : List String} {text : String}
    (h : Trailing m ps texts s) (g : List (String × Given)) :
    readArgument i ps text { s with given := g } =
      .ok { s with given := g, pending := some (positional, texts ++ [text]) } := by
  obtain ⟨given, pending, isOpen, onlyValues⟩ := s
  obtain ⟨rfl, -, -, rfl, -, ht⟩ := h
  simp only [readArgument, if_true, readPlain, Bool.not_true, Bool.and_false, Bool.false_eq_true,
    if_false, ht, Progress.argument]

theorem Trailing.append {texts : List String} (h : Trailing m ps texts s) (text : String) :
    Trailing m ps (texts ++ [text]) { s with pending := some (positional, texts ++ [text]) } :=
  ⟨h.onlyValues, h.flag, h.rest, rfl, by simp, h.taken⟩

/-- **One argument is read alike** where a global flag was noted before, unless it is that flag or
lets all later ones stand for themselves. -/
theorem step_readArgument {i : Interface} {text : String} (ho : Offers m ps)
    (hm : text ≠ m.text) (he : text ≠ "--") :
    Step m (Staged m ps) (Staged m ps) (readArgument i ps text) := by
  rintro s s' g (hs | ⟨texts, hs⟩) hd h
  · have hlooks : ¬s.onlyValues = true := ne_true_of_eq_false hs.onlyValues
    cases hl : look text with
    | escape => exact absurd (eq_of_look_escape hl) he
    | long name attached =>
      have hread : ∀ g, readArgument i ps text { s with given := g } =
          readLong ps name attached { s with given := g } := fun g => by
        rw [readArgument, if_neg hlooks, hl]
      refine (step_readLong ho ?_).looking.read hread hs hd h
      rintro rfl rfl
      exact hm (eq_of_look_long hl)
    | shorts flags =>
      have hread : ∀ g, readArgument i ps text { s with given := g } =
          readShorts ps flags { s with given := g } := fun g => by
        rw [readArgument, if_neg hlooks, hl]
      exact (step_readShorts ho flags).looking.read hread hs hd h
    | plain =>
      have hread : ∀ g, readArgument i ps text { s with given := g } =
          readPlain i ps text { s with given := g } := fun g => by
        rw [readArgument, if_neg hlooks, hl]
      exact (step_readPlain ho).read hread hs hd h
  · rw [show readArgument i ps text s = _ from hs.readArgument_eq s.given] at h
    cases h
    exact ⟨.inr ⟨_, hs.append text⟩, g, hs.readArgument_eq g, hd⟩

/-! ## Ends of levels -/

/-- A level that ends while flags are looked for has no arguments without a flag, and the flag may
stand at its end. -/
theorem Looking.finish {i : Interface} {name : String} {own : Level} (ho : Offers m ps)
    (hs : Looking m s) (h : s.finish name ps = .ok own) :
    own.values? Naming.positionalName = none ∧
      ∃ t a, readArgument i ps m.text s = .ok t ∧ t.finish name ps = .ok ⟨own.name, a⟩ ∧
        DiffersAt m.id .flag own.given a := by
  obtain ⟨s', hs', given, hgiven, rfl⟩ := finish_eq_ok.mp h
  have hlooking := hs.settle hs'
  have hrest : given.lookup Naming.positionalName = none :=
    (lookup_addDefaults (fun _ => ho.defaults_of_positional) hgiven).trans hlooking.rest
  have hread : readArgument i ps m.text s = .ok { s' with given := put m.id .flag s'.given } := by
    have hnote : noteFlag m.parameter s'.given = .ok (put m.id .flag s'.given) :=
      noteFlag_eq_ok.mpr ⟨nofun, hlooking.flag, rfl⟩
    simp only [readArgument, hs.onlyValues, Bool.false_eq_true, if_false, m.look_text, readLong,
      ho.find?_long, show m.parameter.takesValue = false from rfl, Option.isSome_none,
      Progress.flag]
    exact except_bind_eq_ok.mpr ⟨s', hs', except_bind_eq_ok.mpr ⟨_, hnote, rfl⟩⟩
  obtain ⟨a, ha, hd⟩ := (differsAt_put_flag m.id s'.given).addDefaults
    (fun _ => ho.defaults_of_id) hgiven
  have hsettle := settle_of_pending (s := { s' with given := put m.id .flag s'.given })
    (pending_of_settle hs').1
  exact ⟨by rw [Level.values?, hrest], _, a, hread, finish_eq_ok.mpr ⟨_, hsettle, a, ha, rfl⟩, hd⟩

/-- The values of a level that ends among arguments without a flag, with one more of them. -/
theorem Trailing.finish {name : String} {own : Level} {texts : List String} (ho : Offers m ps)
    (hs : Trailing m ps texts s) (h : s.finish name ps = .ok own) (text : String) :
    own.values? Naming.positionalName = some texts ∧
      ∃ a, Progress.finish { s with pending := some (positional, texts ++ [text]) } name ps =
          .ok ⟨own.name, a⟩ ∧
        DiffersAt Naming.positionalName (.values (texts ++ [text])) own.given a := by
  have hsettle : ∀ values : List String,
      Progress.settle { s with pending := some (positional, values) } =
        .ok { s with given := put Naming.positionalName (.values values) s.given
                     pending := none, isOpen := false } := by
    intro values
    have hcheck : checkValues positional values = .ok () := by
      rw [checkValues, List.find?_eq_none.mpr (by simp [Parameter.accepts, positional])]
    have hnote : noteValues positional values s.given =
        .ok (put Naming.positionalName (.values values) s.given) :=
      noteValues_eq_ok.mpr ⟨by simp [positional], by simp [positional], hcheck, rfl⟩
    exact except_bind_eq_ok.mpr ⟨_, hnote, rfl⟩
  rw [show s = { s with pending := some (positional, texts) } by rw [← hs.pending]] at h
  obtain ⟨s', hs', given, hgiven, rfl⟩ := finish_eq_ok.mp h
  obtain rfl := Except.ok.inj ((hsettle texts).symm.trans hs')
  have hdefaults : ∀ p ∈ ps, p.id = Naming.positionalName → p.defaults = [] :=
    fun _ => ho.defaults_of_positional
  obtain ⟨a, ha, hd⟩ := (differsAt_put_put (texts ++ [text]) hs.rest).addDefaults
    hdefaults hgiven
  have hvalues : given.lookup Naming.positionalName = some (.values texts) := by
    rw [lookup_addDefaults hdefaults hgiven, lookup_put_self, hs.rest]
    rfl
  exact ⟨by rw [Level.values?, hvalues], a, finish_eq_ok.mpr ⟨_, hsettle _, a, ha, rfl⟩, hd⟩

end CommandFiles.CommandLine
