import CommandFiles.Proofs.GlobalFlags

/-! # What arguments supply

Before the defaults are put in, a level holds what the arguments themselves gave. `supplied` is that
account for the level at which the arguments end. One step of reading keeps what was noted in shape:
a flag is noted as one, an option of a single value has exactly one, and all others have some. The
arguments without a flag are the last of all arguments, just as they stand there. -/
namespace CommandFiles.CommandLine

open Interface (globalFlags helpParameter positional Contains IsLevel)

variable {ps : List Parameter} {p q : Parameter} {s s' : Progress} {given a : List (String × Given)}
  {values consumed : List String} {text : String}

/-! ## Shapes of what was given -/

/-- Whether what was given for a parameter is of its kind. -/
inductive Fits (p : Parameter) : Given → Prop where
  | flag : p.action = .flag → Fits p .flag
  | one {text : String} : p.action = .set → Fits p (.values [text])
  | many {texts : List String} : p.isGreedy = true → texts ≠ [] → Fits p (.values texts)

/-- Whether everything that was given belongs to some parameters and is of their kind. -/
def Fitting (ps : List Parameter) (given : List (String × Given)) : Prop :=
  ∀ key g, given.lookup key = some g → ∃ p ∈ ps, p.id = key ∧ Fits p g

/-- Whether parameters are told apart by their ids, and the place for arguments without a flag is
the usual one. -/
structure Sound (ps : List Parameter) : Prop where
  ids : ∀ p ∈ ps, ∀ q ∈ ps, p.id = q.id → p = q
  rest : ∀ p ∈ ps, p.action = .positional ∨ p.id = Naming.positionalName → p = positional

theorem Sound.id_ne (h : Sound ps) (hp : p ∈ ps) (ha : p.action ≠ .positional) :
    Naming.positionalName ≠ p.id := by
  intro he
  obtain rfl := h.rest p hp (.inr he.symm)
  exact ha rfl

theorem Sound.action_ne (h : Sound ps) (hp : p ∈ ps) (hne : p ≠ positional) :
    p.action ≠ .positional := fun ha => hne (h.rest p hp (.inl ha))

theorem Fitting.put {g : Given} (h : Fitting ps given) (hp : p ∈ ps) (hg : Fits p g)
    (hset : p.action = .set → given.lookup p.id = none) : Fitting ps (put p.id g given) := by
  intro key w hw
  by_cases hk : key = p.id
  · subst hk
    refine ⟨p, hp, rfl, ?_⟩
    rw [lookup_put_self] at hw
    obtain rfl := Option.some.inj hw
    -- only values that join others are not noted as they are
    rcases hold : given.lookup p.id with _ | _ | olds
    · exact hg
    · exact hg
    · cases hg with
      | flag ha => exact .flag ha
      | one ha =>
        rw [hset ha] at hold
        cases hold
      | many ha hne => exact .many ha (by simp [hne])
  · rw [lookup_put_of_ne hk] at hw
    exact h key w hw

theorem Fitting.noteFlag (h : Fitting ps given) (hp : p ∈ ps) (ht : p.takesValue = false)
    (hn : noteFlag p given = .ok a) : p.action = .flag ∧ Fitting ps a := by
  obtain ⟨hhelp, hnone, rfl⟩ := noteFlag_eq_ok.mp hn
  have hflag : p.action = .flag := by
    cases ha : p.action <;> simp_all [Parameter.takesValue]
  exact ⟨hflag, h.put hp (.flag hflag) fun _ => hnone⟩

theorem Fitting.noteValues (h : Fitting ps given) (hp : p ∈ ps) (ht : p.takesValue = true)
    (hone : p.action = .set → values.length ≤ 1) (hrest : p.action = .positional → values ≠ [])
    (hn : noteValues p values given = .ok a) : Fitting ps a := by
  obtain ⟨hempty, hset, -, rfl⟩ := noteValues_eq_ok.mp hn
  have hne : values ≠ [] := by
    rintro rfl
    by_cases ha : p.action = .positional
    · exact hrest ha rfl
    · simp [ha] at hempty
  refine h.put hp ?_ fun ha => by simpa [ha] using hset
  by_cases ha : p.action = .set
  · obtain ⟨text, rfl⟩ : ∃ text, values = [text] := by
      have := hone ha
      match values, hne with
      | [text], _ => exact ⟨text, rfl⟩
    exact .one ha
  · refine .many ?_ hne
    rw [Parameter.takesValue] at ht
    rw [Parameter.isGreedy]
    simpa [ha] using ht

/-! ## Progress -/

/-- What may be collected for the parameter whose values are pending, after some arguments. -/
inductive Collects (consumed : List String) (s : Progress) (p : Parameter) :
    List String → Prop where
  | opened : p.action = .set → Collects consumed s p []
  | one {text : String} : p.action = .set → s.isOpen = false → Collects consumed s p [text]
  | several {texts : List String} : p.action = .append → Collects consumed s p texts
  | trailing {texts : List String} : p.action = .positional → s.onlyValues = true → texts ≠ [] →
      texts <:+ consumed → Collects consumed s p texts

theorem Collects.shape (h : Collects consumed s p values) :
    p.takesValue = true ∧ (p.action = .set → values.length ≤ 1) ∧
      (p.action = .positional → values ≠ []) := by
  cases h with
  | opened hset => simp [Parameter.takesValue, hset]
  | one hset _ => simp [Parameter.takesValue, hset]
  | several happend => simp [Parameter.takesValue, happend]
  | trailing ha _ hne _ => simp [Parameter.takesValue, ha, hne]

/-- What holds at a level after some arguments were read. -/
structure Noted (ps : List Parameter) (consumed : List String) (s : Progress) : Prop where
  given : Fitting ps s.given
  rest : s.given.lookup Naming.positionalName = none
  pending : ∀ p texts, s.pending = some (p, texts) → p ∈ ps ∧ Collects consumed s p texts

theorem noted_init : Noted ps consumed {} where
  given _ _ h := nomatch h
  rest := rfl
  pending _ _ h := nomatch h

/-- While flags are looked for no argument without a flag is pending. -/
theorem Noted.not_trailing (h : Noted ps consumed s) (hl : s.onlyValues = false) :
    ∀ p texts, s.pending = some (p, texts) → p.action ≠ .positional := by
  intro p texts hp ha
  cases (h.pending p texts hp).2 with
  | opened hset | one hset _ | several hset => cases ha.symm.trans hset
  | trailing _ ho => cases hl.symm.trans ho

/-- While flags are looked for it does not matter what was read. -/
theorem Noted.after (h : Noted ps consumed s) (hl : s.onlyValues = false) (more : List String) :
    Noted ps more s where
  given := h.given
  rest := h.rest
  pending p texts hp := by
    obtain ⟨hmem, hc⟩ := h.pending p texts hp
    refine ⟨hmem, ?_⟩
    cases hc with
    | opened hset => exact .opened hset
    | one hset ho => exact .one hset ho
    | several happend => exact .several happend
    | trailing ha _ _ _ => exact absurd ha (h.not_trailing hl p texts hp)

theorem noted_of_given {given : List (String × Given)} {isOpen onlyValues : Bool}
    (h : Fitting ps given) (hrest : given.lookup Naming.positionalName = none) :
    Noted ps consumed ⟨given, none, isOpen, onlyValues⟩ where
  given := h
  rest := hrest
  pending _ _ hp := nomatch hp

/-- Values that are settled are noted. -/
theorem Noted.fitting_of_settle (h : Noted ps consumed s) (hs : s.settle = .ok s') :
    Fitting ps s'.given := by
  obtain ⟨given, pending, isOpen, onlyValues⟩ := s
  cases pending with
  | none =>
    cases hs
    exact h.given
  | some pair =>
    obtain ⟨q, texts⟩ := pair
    obtain ⟨a, ha, hs⟩ := except_bind_eq_ok.mp hs
    cases hs
    obtain ⟨hmem, hc⟩ := h.pending q texts rfl
    obtain ⟨htakes, hone, hne⟩ := hc.shape
    exact h.given.noteValues hmem htakes hone hne ha

theorem Noted.settle (h : Noted ps consumed s) (hps : Sound ps)
    (hnot : ∀ p texts, s.pending = some (p, texts) → p.action ≠ .positional)
    (hs : s.settle = .ok s') : Noted ps consumed s' := by
  have hgiven := h.fitting_of_settle hs
  have hpending := (pending_of_settle hs).1
  have hrest : s'.given.lookup Naming.positionalName = none := by
    refine (lookup_settle (fun q texts hq => ?_) hs).trans h.rest
    exact (hps.id_ne (h.pending q texts hq).1 (hnot q texts hq)).symm
  obtain ⟨given, pending, isOpen, onlyValues⟩ := s'
  cases hpending
  exact noted_of_given hgiven hrest

/-! ## Steps -/

theorem Noted.flag (h : Noted ps consumed s) (hps : Sound ps) (hl : s.onlyValues = false)
    (hp : p ∈ ps) (ht : p.takesValue = false) (hs : s.flag p = .ok s') :
    Noted ps consumed s' ∧ s'.onlyValues = false := by
  obtain ⟨t, ht', hs⟩ := except_bind_eq_ok.mp hs
  obtain ⟨a, ha, hs⟩ := except_bind_eq_ok.mp hs
  obtain ⟨hpending, honly⟩ := pending_of_settle ht'
  have hsettled := h.settle hps (h.not_trailing hl) ht'
  obtain ⟨hflag, hfitting⟩ := hsettled.given.noteFlag hp ht ha
  obtain ⟨-, -, rfl⟩ := noteFlag_eq_ok.mp ha
  cases hs
  refine ⟨⟨hfitting, ?_, fun q texts hq => ?_⟩, honly.trans hl⟩
  · rw [lookup_put_of_ne (hps.id_ne hp (by simp [hflag]))]
    exact hsettled.rest
  · cases hpending.symm.trans hq

theorem Noted.option {attached : Option String} (h : Noted ps consumed s) (hps : Sound ps)
    (hl : s.onlyValues = false) (hp : p ∈ ps) (ht : p.takesValue = true)
    (ha : p.action ≠ .positional) (hs : s.option p attached = .ok s') : Noted ps consumed s' := by
  obtain ⟨t, ht', hs⟩ := except_bind_eq_ok.mp hs
  obtain ⟨hpending, -⟩ := pending_of_settle ht'
  have hsettled := h.settle hps (h.not_trailing hl) ht'
  cases attached with
  | some v =>
    obtain ⟨a, hn, hs⟩ := except_bind_eq_ok.mp hs
    have hfitting := hsettled.given.noteValues hp ht (by simp) (by simp) hn
    obtain ⟨-, -, -, rfl⟩ := noteValues_eq_ok.mp hn
    cases hs
    refine ⟨hfitting, ?_, fun q texts hq => ?_⟩
    · rw [lookup_put_of_ne (hps.id_ne hp ha)]
      exact hsettled.rest
    · cases hpending.symm.trans hq
  | none =>
    cases hs
    refine ⟨hsettled.given, hsettled.rest, fun q texts hq => ?_⟩
    cases hq
    refine ⟨hp, ?_⟩
    by_cases hset : p.action = .set
    · exact .opened hset
    · refine .several ?_
      rw [Parameter.takesValue] at ht
      simpa [hset, ha] using ht

theorem Noted.value (h : Noted ps consumed s) (hl : s.onlyValues = false)
    (ho : s.isOpen = true) (text : String) : Noted ps consumed (s.value text) := by
  obtain ⟨given, pending, isOpen, onlyValues⟩ := s
  cases pending with
  | none => exact h
  | some pair =>
    obtain ⟨q, texts⟩ := pair
    obtain ⟨hmem, hc⟩ := h.pending q texts rfl
    refine ⟨h.given, h.rest, fun r more hr => ?_⟩
    cases hr
    refine ⟨hmem, ?_⟩
    cases hc with
    | opened hset => exact .one hset (show q.isGreedy = false by simp [Parameter.isGreedy, hset])
    | one _ hclosed => cases ho.symm.trans hclosed
    | several happend => exact .several happend
    | trailing ha _ _ _ => exact absurd ha (h.not_trailing hl q texts rfl)

/-- An argument without a flag is the first of those that trail, or one more of them. -/
theorem Noted.argument (h : Noted ps consumed s) (hps : Sound ps) (hp : p ∈ ps)
    (ha : p.action = .positional) (hs : s.argument p text = .ok s') :
    Noted ps (consumed ++ [text]) s' := by
  obtain ⟨given, pending, isOpen, onlyValues⟩ := s
  cases pending with
  | none =>
    cases hs
    refine ⟨h.given, h.rest, fun q texts hq => ?_⟩
    cases hq
    exact ⟨hp, .trailing ha rfl (List.cons_ne_nil _ _) (List.suffix_append _ _)⟩
  | some pair =>
    obtain ⟨q, texts⟩ := pair
    obtain ⟨hmem, hc⟩ := h.pending q texts rfl
    by_cases hq : q.id = p.id
    · simp only [Progress.argument, if_pos hq] at hs
      cases hs
      obtain rfl := hps.ids q hmem p hp hq
      refine ⟨h.given, h.rest, fun r more hr => ?_⟩
      cases hr
      refine ⟨hmem, ?_⟩
      cases hc with
      | opened hset | one hset _ | several hset => cases ha.symm.trans hset
      | trailing _ _ _ hsuffix =>
        obtain ⟨front, rfl⟩ := hsuffix
        exact .trailing ha rfl (by simp) ⟨front, by simp⟩
    · simp only [Progress.argument, if_neg hq] at hs
      obtain ⟨t, ht, hs⟩ := except_bind_eq_ok.mp hs
      have hsettled := h.settle hps (fun r more hr hra => ?_) ht
      · cases hs
        refine ⟨hsettled.given, hsettled.rest, fun r more hr => ?_⟩
        cases hr
        exact ⟨hp, .trailing ha rfl (List.cons_ne_nil _ _) (List.suffix_append _ _)⟩
      · cases hr
        rw [hps.rest q hmem (.inl hra), hps.rest p hp (.inl ha)] at hq
        exact hq rfl

theorem Noted.readLong {name : String} {attached : Option String} (h : Noted ps consumed s)
    (hps : Sound ps) (hl : s.onlyValues = false) (hs : readLong ps name attached s = .ok s') :
    Noted ps consumed s' := by
  unfold CommandLine.readLong at hs
  split at hs
  · cases hs
  next p hf =>
  have hp := List.mem_of_find?_eq_some hf
  have hlong : p.long = some name := by simpa using List.find?_some hf
  have hpositional := hps.action_ne hp (by rintro rfl; cases hlong)
  split at hs
  · next ht => exact h.option hps hl hp ht hpositional hs
  split at hs
  · cases hs
  · next ht _ => exact (h.flag hps hl hp (by simpa using ht) hs).1

theorem Noted.readShorts {flags : List Char} (h : Noted ps consumed s) (hps : Sound ps)
    (hl : s.onlyValues = false) (hs : readShorts ps flags s = .ok s') : Noted ps consumed s' := by
  induction flags generalizing s with
  | nil =>
    cases hs
    exact h
  | cons c rest ih =>
    unfold CommandLine.readShorts at hs
    split at hs
    · cases hs
    next p hf =>
    have hp := List.mem_of_find?_eq_some hf
    have hshort : p.short = some c := by simpa using List.find?_some hf
    have hpositional := hps.action_ne hp (by rintro rfl; cases hshort)
    split at hs
    · next ht => exact h.option hps hl hp ht hpositional hs
    · next ht =>
      obtain ⟨t, ht', hs⟩ := except_bind_eq_ok.mp hs
      obtain ⟨hnoted, hlooks⟩ := h.flag hps hl hp (by simpa using ht) ht'
      exact ih hnoted hlooks hs

theorem Noted.readPlain {i : Interface} (h : Noted ps consumed s) (hps : Sound ps)
    (hs : readPlain i ps text s = .ok s') : Noted ps (consumed ++ [text]) s' := by
  unfold CommandLine.readPlain at hs
  split at hs
  · next hopen =>
    simp only [Bool.and_eq_true, Bool.not_eq_true'] at hopen
    cases hs
    exact (h.after hopen.2 _).value hopen.2 hopen.1 text
  split at hs
  · next p hf =>
    have ha : p.action = .positional := by simpa using List.find?_some hf
    exact h.argument hps (List.mem_of_find?_eq_some hf) ha hs
  · split at hs
    · cases hs
    split at hs <;> cases hs

/-- **One argument is noted in shape.** -/
theorem Noted.readArgument {i : Interface} (h : Noted ps consumed s) (hps : Sound ps)
    (hs : readArgument i ps text s = .ok s') : Noted ps (consumed ++ [text]) s' := by
  unfold CommandLine.readArgument at hs
  split at hs
  · exact h.readPlain hps hs
  next hl =>
  have hl : s.onlyValues = false := by simpa using hl
  split at hs
  · -- behind the escape a pending option still waits to be settled
    cases hs
    refine ⟨h.given, h.rest, fun q texts hq => ?_⟩
    obtain ⟨hmem, hc⟩ := h.pending q texts hq
    refine ⟨hmem, ?_⟩
    cases hc with
    | opened hset => exact .opened hset
    | one hset ho => exact .one hset ho
    | several happend => exact .several happend
    | trailing ha _ _ _ => exact absurd ha (h.not_trailing hl q texts hq)
  · exact (h.after hl _).readLong hps hl hs
  · exact (h.after hl _).readShorts hps hl hs
  · exact h.readPlain hps hs

/-! ## Levels of an interface -/

/-- The parameters of a level are told apart by their ids. -/
theorem sound_of_isLevel {k : Interface} (h : IsLevel k) : Sound (parametersAt k globalFlags) := by
  obtain ⟨own, more, -, hown, hparameters, hmore, -⟩ := h
  have hmem : ∀ p ∈ parametersAt k globalFlags,
      p ∈ own ∨ p ∈ positional :: helpParameter :: globalFlags := by
    intro p hp
    rcases Interface.mem_parametersAt hp with hp | hp | rfl
    · rw [hparameters] at hp
      rcases List.mem_append.mp hp with hp | hp
      · exact .inl hp
      · rcases hmore p hp with rfl | hp
        · exact .inr List.mem_cons_self
        · exact .inr (List.mem_cons_of_mem _ (List.mem_cons_of_mem _ hp))
    · exact .inr (List.mem_cons_of_mem _ (List.mem_cons_of_mem _ hp))
    · exact .inr (List.mem_cons_of_mem _ List.mem_cons_self)
  have hheld : ∀ p ∈ positional :: helpParameter :: globalFlags, p.id ∈ Naming.reserved ∧
      (p.action = .positional ∨ p.id = Naming.positionalName → p = positional) ∧
      ∀ q ∈ positional :: helpParameter :: globalFlags, p.id = q.id → p = q := by decide
  refine ⟨fun p hp q hq he => ?_, fun p hp ha => ?_⟩
  · rcases hmem p hp with hp | hp <;> rcases hmem q hq with hq | hq
    · exact List.inj_on_of_nodup_map hown.nodup hp hq he
    · exact absurd (he ▸ (hheld q hq).1) (hown.unreserved p hp)
    · exact absurd (he ▸ (hheld p hp).1) (hown.unreserved q hq)
    · exact (hheld p hp).2.2 q hq he
  · rcases hmem p hp with hp | hp
    · rcases ha with ha | ha
      · exact absurd ha (hown.own p hp).2.1
      · exact absurd (ha ▸ by decide) (hown.unreserved p hp)
    · exact (hheld p hp).2.1 ha

/-! ## Runs -/

/-- What arguments give at the level at which they end, with the interface of that level: everything
but the defaults. -/
def supplied (inherited : List Parameter) (i : Interface) (s : Progress) :
    List String → Except Refusal (Interface × List (String × Given))
  | [] => do
    let s ← s.settle
    return (i, s.given)
  | text :: rest =>
    match if s.looksDown then i.find? text else none with
    | some sub => supplied inherited sub {} rest
    | none => do
      let s ← readArgument i (parametersAt i inherited) text s
      supplied inherited i s rest

/-- Defaults do not touch what was given. -/
theorem lookup_addDefaults_of_some {key : String} {g : Given} (h : given.lookup key = some g)
    (ha : addDefaults ps given = .ok a) : a.lookup key = some g := by
  induction ps generalizing given with
  | nil => rwa [← Except.ok.inj ha]
  | cons p rest ih =>
    rw [addDefaults] at ha
    split at ha
    · exact ih h ha
    · next hskip =>
      obtain ⟨_, _, ha⟩ := except_bind_eq_ok.mp ha
      refine ih ?_ ha
      rw [lookup_put_of_ne, h]
      rintro rfl
      simp [h] at hskip

/-- What is known of an account: everything in it is of its kind, and the arguments without a flag
are the last of all. -/
structure Account (k : Interface) (arguments : List String) (given : List (String × Given)) :
    Prop where
  fitting : Fitting (parametersAt k globalFlags) given
  trailing : ∀ g, given.lookup Naming.positionalName = some g →
    ∃ texts, g = .values texts ∧ texts ≠ [] ∧ texts <:+ arguments

theorem Noted.account {k : Interface} (h : Noted (parametersAt k globalFlags) consumed s)
    (hps : Sound (parametersAt k globalFlags)) (hs : s.settle = .ok s') :
    Account k consumed s'.given := by
  refine ⟨h.fitting_of_settle hs, fun g hg => ?_⟩
  obtain ⟨given, pending, isOpen, onlyValues⟩ := s
  cases pending with
  | none =>
    cases hs
    cases hg.symm.trans h.rest
  | some pair =>
    obtain ⟨q, texts⟩ := pair
    obtain ⟨a, ha, hs⟩ := except_bind_eq_ok.mp hs
    cases hs
    obtain ⟨hmem, hc⟩ := h.pending q texts rfl
    obtain ⟨-, -, -, rfl⟩ := noteValues_eq_ok.mp ha
    by_cases hq : q.action = .positional
    · obtain rfl := hps.rest q hmem (.inl hq)
      cases hc with
      | opened hset | one hset _ | several hset => cases hset
      | trailing _ _ hne hsuffix =>
        have hput : (put positional.id (.values texts) given).lookup Naming.positionalName =
            some (joined (given.lookup Naming.positionalName) (.values texts)) := lookup_put_self
        rw [show given.lookup Naming.positionalName = none from h.rest] at hput
        exact ⟨texts, Option.some.inj (hg.symm.trans hput), hne, hsuffix⟩
    · rw [lookup_put_of_ne (hps.id_ne hmem hq)] at hg
      cases hg.symm.trans h.rest

/-- **Every run has an account**: what is supplied at its last level is what that level holds apart
from the defaults. -/
theorem Reading.exists_account {i : Interface} {arguments : List String}
    {run : List (Interface × Level)} (h : Reading globalFlags i s arguments run)
    (hi : ∀ k, Contains i k → IsLevel k) (hs : Noted (parametersAt i globalFlags) consumed s) :
    ∃ k own given, run.getLast? = some (k, own) ∧
      supplied globalFlags i s arguments = .ok (k, given) ∧ Contains i k ∧
      addDefaults (parametersAt k globalFlags) given = .ok own.given ∧
      Account k (consumed ++ arguments) given := by
  induction h generalizing consumed with
  | @done i s own hown =>
    obtain ⟨s', hs', given, hgiven, rfl⟩ := finish_eq_ok.mp hown
    refine ⟨i, _, s'.given, rfl, ?_, .self i, hgiven, ?_⟩
    · rw [supplied, hs']
      rfl
    · rw [List.append_nil]
      exact hs.account (sound_of_isLevel (hi i (.self i))) hs'
  | @down i s text sub rest below own hlooks hf _ _ ih =>
    have hmem := List.mem_of_find?_eq_some hf
    have hinit : Noted (parametersAt sub globalFlags) [] {} := noted_init
    obtain ⟨k, last, given, hlast, hsupplied, hk, hdefaults, haccount⟩ :=
      ih (fun k hk => hi k (.inside hmem hk)) hinit
    refine ⟨k, last, given, ?_, ?_, .inside hmem hk, hdefaults, haccount.fitting, fun g hg => ?_⟩
    · rw [List.getLast?_cons, hlast]
      rfl
    · rw [supplied, if_pos hlooks, hf]
      exact hsupplied
    · obtain ⟨texts, rfl, hne, hsuffix⟩ := haccount.trailing g hg
      refine ⟨texts, rfl, hne, hsuffix.trans ⟨consumed ++ [text], by simp⟩⟩
  | @along i s s' text rest run hstays hread _ ih =>
    have hps := sound_of_isLevel (hi i (.self i))
    obtain ⟨k, own, given, hlast, hsupplied, hk, hdefaults, haccount⟩ :=
      ih hi (hs.readArgument hps hread)
    refine ⟨k, own, given, hlast, ?_, hk, hdefaults, by simpa using haccount⟩
    have hnone : (if s.looksDown then i.find? text else none) = none := by
      cases hd : s.looksDown with
      | false => rfl
      | true => exact (hstays hd).1
    rw [supplied, hnone]
    dsimp only
    rw [hread]
    exact hsupplied

end CommandFiles.CommandLine
