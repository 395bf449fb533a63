import CommandFiles.Proofs.CommandRoute
import CommandFiles.Proofs.FlagSteps
import CommandFiles.Proofs.InvocationLevels

/-! # Global flags before and behind the arguments

A global flag in front of arguments that are accepted, or behind them, changes nothing but what the
flag stands for. There are two exceptions: arguments without a flag are passed through to their
command with everything behind them, and a subcommand that is called like the flag goes first. -/
namespace CommandFiles

open CommandLine
open Interface (globalFlags helpParameter positional rootName Contains HasBelow)

/-! ## The flags at every level -/

namespace Interface

/-- What a parameter of a level can be. -/
def IsUsual (p : Parameter) : Prop :=
  (p.long = some p.id ∧ p.id ∉ Naming.reserved ∧ p.action ≠ .positional) ∨ p = positional ∨
    p ∈ globalFlags ∨ p = helpParameter

/-- A global flag is known by its name. -/
theorem eq_parameter_of_mem {m : Modifier} {p : Parameter} (hp : p ∈ globalFlags)
    (he : p.id = m.id) : p = m.parameter := by
  have hall : ∀ p ∈ globalFlags, p.id = m.id → p = m.parameter := by
    cases m with
    | runtime r => cases r <;> decide
    | verbose => decide
  exact hall p hp he

theorem globalFlags_usual {p : Parameter} (hp : p ∈ globalFlags) :
    p.long = some p.id ∧ p.id ≠ Naming.positionalName ∧ p.action ≠ .positional := by
  have hall : ∀ p ∈ globalFlags,
      p.long = some p.id ∧ p.id ≠ Naming.positionalName ∧ p.action ≠ .positional := by decide
  exact hall p hp

theorem offers_of_usual {m : Modifier} {ps : List Parameter} (h : ∀ p ∈ ps, IsUsual p)
    (hm : m.parameter ∈ ps) : Offers m ps := by
  have hid : ∀ p ∈ ps, p.id = m.id → p = m.parameter := by
    intro p hp he
    rcases h p hp with ⟨-, hr, -⟩ | rfl | hg | rfl
    · exact absurd (he ▸ m.id_mem_reserved) hr
    · exact absurd he.symm m.id_ne_positional
    · exact eq_parameter_of_mem hg he
    · exact absurd he.symm m.id_ne_help
  refine ⟨hm, hid, fun p hp hl => ?_, fun p hp he => ?_, fun p hp ha => ?_⟩
  · rcases h p hp with ⟨hlong, -, -⟩ | rfl | hg | rfl
    · exact hid p hp (Option.some.inj (hlong.symm.trans hl))
    · cases hl
    · exact hid p hp (Option.some.inj ((globalFlags_usual hg).1.symm.trans hl))
    · exact absurd (Option.some.inj hl).symm m.id_ne_help
  · rcases h p hp with ⟨-, hr, -⟩ | rfl | hg | rfl
    · exact absurd (he ▸ by decide) hr
    · rfl
    · exact absurd he (globalFlags_usual hg).2.1
    · exact absurd he (by decide)
  · rcases h p hp with ⟨-, -, hn⟩ | rfl | hg | rfl
    · exact absurd ha hn
    · rfl
    · exact absurd ha (globalFlags_usual hg).2.2
    · cases ha

theorem IsLevel.usual {k : Interface} (h : IsLevel k) : ∀ p ∈ k.usage.parameters, IsUsual p := by
  obtain ⟨ps, more, -, hps, hparameters, hmore, -⟩ := h
  intro p hp
  rw [hparameters] at hp
  rcases List.mem_append.mp hp with hp | hp
  · exact .inl ⟨hps.long_eq p hp, hps.unreserved p hp, (hps.own p hp).2.1⟩
  · rcases hmore p hp with rfl | hp
    · exact .inr (.inl rfl)
    · exact .inr (.inr (.inl hp))

theorem mem_parametersAt {k : Interface} {inherited : List Parameter} {p : Parameter}
    (h : p ∈ parametersAt k inherited) :
    p ∈ k.usage.parameters ∨ p ∈ inherited ∨ p = helpParameter := by
  rcases List.mem_append.mp h with h | h
  · exact (List.mem_append.mp h).imp_right fun h => .inl (List.mem_of_mem_filter h)
  · exact .inr (.inr (List.mem_singleton.mp h))

/-- The global flags are offered at every level. -/
theorem IsLevel.offers {k : Interface} (h : IsLevel k) (m : Modifier) :
    Offers m (parametersAt k globalFlags) := by
  refine offers_of_usual (fun p hp => ?_) ?_
  · rcases mem_parametersAt hp with hp | hp | hp
    · exact h.usual p hp
    · exact .inr (.inr (.inl hp))
    · exact .inr (.inr (.inr hp))
  · refine List.mem_append_left _ (List.mem_append.mpr ?_)
    cases hany : k.usage.parameters.any (·.id == m.id) with
    | false => exact .inr (List.mem_filter.mpr ⟨m.parameter_mem, by simpa using hany⟩)
    | true =>
      -- a parameter of that name is the flag itself, at the root
      obtain ⟨p, hp, he⟩ := List.any_eq_true.mp hany
      have he : p.id = m.id := by simpa using he
      rcases h.usual p hp with ⟨-, hr, -⟩ | rfl | hg | rfl
      · exact absurd (he ▸ m.id_mem_reserved) hr
      · exact absurd he.symm m.id_ne_positional
      · exact .inl (eq_parameter_of_mem hg he ▸ hp)
      · exact absurd he.symm m.id_ne_help

/-- What holds everywhere below the root are the global flags. -/
theorem inherited_of_ofTree {tree : Command} {fallback : String} {i : Interface}
    (h : (ofTree tree fallback).run.value = .ok i) : i.inherited = globalFlags := by
  obtain ⟨u, below, hu, -, rfl⟩ := ofTree_eq_ok h
  obtain ⟨ps, hps, rfl⟩ := usageOf_eq_ok hu
  have hown : ps.filter (·.isGlobal) = [] :=
    List.filter_eq_nil_iff.mpr fun p hp => by simp [(hps.own p hp).1]
  have hglobal : globalFlags.filter (·.isGlobal) = globalFlags := by decide
  rw [inherited, usage, List.filter_append, List.filter_append, hown, hglobal]
  cases tree.subcommands.isEmpty <;> rfl

end Interface

/-! ## Runs -/

namespace CommandLine.Reading

variable {m : Modifier} {i : Interface} {s : Progress} {arguments : List String}
  {run : List (Interface × Level)} {g : List (String × Given)}

/-- A level with something else given. -/
def withGiven (own : Level) (g : List (String × Given)) : Level := { own with given := g }

/-- Where the flag was noted before, the arguments are read alike. -/
theorem noted (h : Reading globalFlags i s arguments run)
    (hi : ∀ k, Contains i k → Offers m (parametersAt k globalFlags))
    (hs : Staged m (parametersAt i globalFlags) s) (hd : DiffersAt m.id .flag s.given g)
    (hm : m.text ∉ arguments) (he : "--" ∉ arguments) :
    ∃ own more a, run = (i, own) :: more ∧ DiffersAt m.id .flag own.given a ∧
      Reading globalFlags i { s with given := g } arguments ((i, withGiven own a) :: more) := by
  have ho := hi i (.self i)
  induction h generalizing g with
  | done hown =>
    obtain ⟨a, ha, hda⟩ := finish_of_differsAt hs.pending (fun _ => ho.defaults_of_id) hd hown
    exact ⟨_, _, a, rfl, hda, .done (name_of_finish hown ▸ ha)⟩
  | down hlooks hf hbelow hown _ =>
    obtain ⟨a, ha, hda⟩ := finish_of_differsAt hs.pending (fun _ => ho.defaults_of_id) hd hown
    exact ⟨_, _, a, rfl, hda, .down hlooks hf hbelow (name_of_finish hown ▸ ha)⟩
  | along hstays hread _ ih =>
    rw [List.mem_cons, not_or] at hm he
    obtain ⟨hs', g', hg', hd'⟩ :=
      step_readArgument ho (Ne.symm hm.1) (Ne.symm he.1) _ _ g hs hd hread
    obtain ⟨own, more, a, rfl, hda, hrun⟩ := ih hi hs' hd' hm.2 he.2 ho
    exact ⟨own, more, a, rfl, hda, .along hstays hg' hrun⟩

/-- What becomes of the last level when the flag stands behind the arguments. -/
inductive Behind (m : Modifier) (i : Interface) (s : Progress) (arguments : List String)
    (run : List (Interface × Level)) (k : Interface) (own : Level) : Prop where
  /-- The flag is noted there, unless a subcommand is called like it. -/
  | noted {a} : own.values? Naming.positionalName = none → DiffersAt m.id .flag own.given a →
      (k.find? m.text = none → Reading globalFlags i s (arguments ++ [m.text])
        (run ++ [(k, withGiven own a)])) →
      Behind m i s arguments run k own
  /-- The flag is one more argument without a flag. -/
  | passed {a texts} : own.values? Naming.positionalName = some texts → texts ≠ [] →
      DiffersAt Naming.positionalName (.values (texts ++ [m.text])) own.given a →
      Reading globalFlags i s (arguments ++ [m.text]) (run ++ [(k, withGiven own a)]) →
      Behind m i s arguments run k own

theorem behind (h : Reading globalFlags i s arguments run)
    (hi : ∀ k, Contains i k → Offers m (parametersAt k globalFlags))
    (hs : Staged m (parametersAt i globalFlags) s)
    (hm : m.text ∉ arguments) (he : "--" ∉ arguments) :
    ∃ before k own, run = before ++ [(k, own)] ∧ Behind m i s arguments before k own := by
  induction h with
  | @done i s own hown =>
    have ho := hi i (.self i)
    refine ⟨[], i, own, rfl, ?_⟩
    rcases hs with hs | ⟨texts, hs⟩
    · obtain ⟨hvalues, t, a, ht, ha, hd⟩ := hs.finish (i := i) ho hown
      refine .noted hvalues hd fun hf => .along (fun _ => ⟨hf, fun h => ?_⟩) ht (.done ?_)
      · exact absurd h m.text_ne_help
      · exact name_of_finish hown ▸ ha
    · obtain ⟨hvalues, a, ha, hd⟩ := hs.finish ho hown m.text
      refine .passed hvalues hs.nonempty hd (.along (fun h => ?_) (hs.readArgument_eq _) (.done ?_))
      · simp [Progress.looksDown, hs.onlyValues] at h
      · exact name_of_finish hown ▸ ha
  | @down i s text sub rest below own hlooks hf _ hown ih =>
    have hsub : ∀ k, Contains sub k → Offers m (parametersAt k globalFlags) := fun k hk =>
      hi k (.inside (List.mem_of_find?_eq_some hf) hk)
    obtain ⟨before, k, last, rfl, hend⟩ := ih hsub (.inl looking_init)
      (fun h => hm (List.mem_cons_of_mem _ h)) (fun h => he (List.mem_cons_of_mem _ h))
    refine ⟨(i, own) :: before, k, last, rfl, ?_⟩
    cases hend with
    | noted hvalues hd hrun => exact .noted hvalues hd fun h => .down hlooks hf (hrun h) hown
    | passed hvalues hne hd hrun => exact .passed hvalues hne hd (.down hlooks hf hrun hown)
  | @along i s s' text rest run hstays hread _ ih =>
    rw [List.mem_cons, not_or] at hm he
    have hs' : Staged m (parametersAt i globalFlags) s' :=
      (step_readArgument (hi i (.self i)) (Ne.symm hm.1) (Ne.symm he.1)).stage hs hread
    obtain ⟨before, k, last, rfl, hend⟩ := ih hi hs' hm.2 he.2
    refine ⟨before, k, last, rfl, ?_⟩
    cases hend with
    | noted hvalues hd hrun => exact .noted hvalues hd fun h => .along hstays hread (hrun h)
    | passed hvalues hne hd hrun => exact .passed hvalues hne hd (.along hstays hread hrun)

end CommandLine.Reading

/-! ## Invocations -/

/-- What arguments ask for. -/
def asked (tree : Command) (fallback : String) (i : Interface) (arguments : List String) :
    Except Refusal Invocation :=
  (CommandLine.match i arguments).map (Invocation.ofLevels tree fallback)

/-- The arguments without a flag that were given at the last level. -/
def trailing (levels : List Level) : List String :=
  (levels.getLast?.bind (·.values? Naming.positionalName)).getD []

/-- Whether an invocation asks for what a flag stands for. -/
def CommandLine.Modifier.isOn (v : Invocation) : Modifier → Bool
  | runtime r => v.runtimes.contains r
  | verbose => v.verbose

/-- Whether arguments with a flag in front and with the flag behind ask for the same, and for what
the flag stands for. -/
def WorksOnBothSides (tree : Command) (fallback : String) (i : Interface) (m : Modifier)
    (arguments : List String) : Prop :=
  ∃ v, asked tree fallback i (m.text :: arguments) = .ok v ∧
    asked tree fallback i (arguments ++ [m.text]) = .ok v ∧ m.isOn v = true

section Asked

variable {tree : Command} {fallback : String} {i : Interface} {arguments : List String}
  {run : List (Interface × Level)}

theorem asked_of_reading (hi : (Interface.ofTree tree fallback).run.value = .ok i)
    (h : Reading globalFlags i {} arguments run) :
    asked tree fallback i arguments =
      .ok (Invocation.ofLevels tree fallback (run.map Prod.snd)) := by
  have hmatch : CommandLine.match i arguments = .ok (run.map Prod.snd) := by
    change readArguments i.inherited i {} arguments = _
    rw [Interface.inherited_of_ofTree hi, h.readArguments_eq]
  rw [asked, hmatch]
  rfl

/-- All levels of a run count, and its last interface is the one at the path. -/
theorem length_and_reached (hi : (Interface.ofTree tree fallback).run.value = .ok i)
    (h : Reading globalFlags i {} arguments run) :
    (Invocation.ofLevels tree fallback (run.map Prod.snd)).path.length =
        (run.map Prod.snd).length ∧
      i.findPath? (Invocation.ofLevels tree fallback (run.map Prod.snd)).path.tail =
        run.getLast?.map Prod.fst := by
  obtain ⟨own, more, rfl, -⟩ := h.exists_cons
  obtain ⟨reached, hend⟩ := h.endsAt (hasBelow_of_ofTree hi) rfl
  refine ⟨?_, hend.found.trans hend.last.symm⟩
  have hlength := congrArg List.length hend.names_eq
  rw [List.length_map, List.tail_cons] at hlength
  change (Invocation.descend tree own (more.map Prod.snd)).2.2.2.length + 1 = _
  rw [hlength, List.length_map]
  rfl

/-- **Global flags work before and behind the arguments.** In front of arguments that are accepted
a global flag is switched on, and nothing else changes; so it is behind them, unless arguments
without a flag stand before it, among which it counts then. A subcommand that is called like the
flag is looked for first. -/
theorem asked_modifier {levels : List Level} (m : Modifier)
    (hi : (Interface.ofTree tree fallback).run.value = .ok i)
    (hl : CommandLine.match i arguments = .ok levels)
    (he : "--" ∉ arguments) (hm : m.text ∉ arguments) :
    (i.find? m.text = none →
      asked tree fallback i (m.text :: arguments) =
        .ok (m.switchOn (Invocation.ofLevels tree fallback levels))) ∧
    (trailing levels = [] →
      (∀ k, i.findPath? (Invocation.ofLevels tree fallback levels).path.tail = some k →
        k.find? m.text = none) →
      asked tree fallback i (arguments ++ [m.text]) =
        .ok (m.switchOn (Invocation.ofLevels tree fallback levels))) ∧
    (trailing levels ≠ [] →
      asked tree fallback i (arguments ++ [m.text]) =
        .ok { Invocation.ofLevels tree fallback levels with
          arguments := (Invocation.ofLevels tree fallback levels).arguments.insert
            Naming.positionalName (.array ((trailing levels ++ [m.text]).map .string)) }) := by
  have hoffers : ∀ k, Contains i k → Offers m (parametersAt k globalFlags) := fun k hk =>
    (Interface.isLevel_of_ofTree hi hk).offers m
  have hstaged : Staged m (parametersAt i globalFlags) {} := .inl looking_init
  obtain ⟨run, hrun, rfl⟩ := exists_reading hl
  change Reading i.inherited i {} arguments run at hrun
  rw [Interface.inherited_of_ofTree hi] at hrun
  obtain ⟨hlength, hreached⟩ := length_and_reached hi hrun
  refine ⟨fun hf => ?_, ?_⟩
  · obtain ⟨own, more, a, rfl, hd, hnoted⟩ :=
      hrun.noted hoffers hstaged (differsAt_put_flag m.id []) hm he
    have hfront : Reading globalFlags i {} (m.text :: arguments)
        ((i, Reading.withGiven own a) :: more) := by
      refine .along (fun _ => ⟨hf, fun h => absurd h m.text_ne_help⟩) ?_ hnoted
      simp only [readArgument, m.look_text, readLong, (hoffers i (.self i)).find?_long]
      rfl
    rw [asked_of_reading hi hfront]
    exact congrArg Except.ok (Invocation.ofLevels_of_flag m [] _ rfl hd hlength)
  · obtain ⟨before, k, own, rfl, hbehind⟩ := hrun.behind hoffers hstaged hm he
    rw [List.getLast?_concat, Option.map_some] at hreached
    have hlast : trailing ((before ++ [(k, own)]).map Prod.snd) =
        (own.values? Naming.positionalName).getD [] := by
      rw [trailing, List.map_append, List.map_singleton, List.getLast?_concat, Option.bind_some]
    rw [List.map_append, List.map_singleton] at hlength
    cases hbehind with
    | noted hvalues hd hnoted =>
      rw [hlast, hvalues]
      refine ⟨fun _ hf => ?_, fun h => absurd rfl h⟩
      rw [asked_of_reading hi (hnoted (hf k hreached)), List.map_append, List.map_append]
      exact congrArg Except.ok (Invocation.ofLevels_of_flag m _ [] rfl hd hlength)
    | @passed a texts hvalues hne hd hpassed =>
      rw [hlast, hvalues, Option.getD_some]
      refine ⟨fun h => absurd h hne, fun _ => ?_⟩
      rw [asked_of_reading hi hpassed, List.map_append, List.map_append]
      exact congrArg Except.ok
        (Invocation.ofLevels_of_positional rfl hd hvalues hne (by simp) hlength)

end Asked

/-- A tree with one command, which takes arguments without a flag. -/
def passing : Command := .mk {} [.mk { name := "sub", filePath := some "/c/sub.js" } []]

/-- The interface of the tree. -/
def passingInterface : Interface :=
  .mk { name := "zli", parameters := globalFlags }
    [.mk { name := "sub", about := some (Command.defaultDescription "sub")
           parameters := [positional] } []]

/-- A command that is called like a global flag. -/
def shadowing : Command := .mk {} [.mk { name := "--prod", filePath := some "/c/prod.js" } []]

/-- Its interface. -/
def shadowingInterface : Interface :=
  .mk { name := "zli", parameters := globalFlags }
    [.mk { name := "--prod", about := some (Command.defaultDescription "--prod")
           parameters := [positional] } []]

theorem asked_modifier_of_passing :
    (Interface.ofTree passing "zli").run.value = .ok passingInterface ∧
      asked passing "zli" passingInterface ["--prod", "sub", "one"] =
        .ok ((Modifier.runtime .production).switchOn
          (Invocation.ofLevels passing "zli" [⟨"zli", []⟩, ⟨"sub", [("_", .values ["one"])]⟩])) ∧
      asked passing "zli" passingInterface ["sub", "--prod"] =
        .ok ((Modifier.runtime .production).switchOn
          (Invocation.ofLevels passing "zli" [⟨"zli", []⟩, ⟨"sub", []⟩])) := by
  have hi : (Interface.ofTree passing "zli").run.value = .ok passingInterface := rfl
  have hone : CommandLine.match passingInterface ["sub", "one"] =
      .ok [⟨"zli", []⟩, ⟨"sub", [("_", .values ["one"])]⟩] := rfl
  have hnone : CommandLine.match passingInterface ["sub"] = .ok [⟨"zli", []⟩, ⟨"sub", []⟩] := rfl
  obtain ⟨hfront, -, -⟩ := asked_modifier (.runtime .production) hi hone (by decide) (by decide)
  obtain ⟨-, hbehind, -⟩ := asked_modifier (.runtime .production) hi hnone (by decide) (by decide)
  refine ⟨hi, hfront rfl, hbehind rfl fun k hk => ?_⟩
  cases hk
  rfl

/-- A flag behind an argument without a flag is passed through, and one that is the name of a
command calls it. -/
theorem not_worksOnBothSides :
    ((Interface.ofTree passing "zli").run.value = .ok passingInterface ∧
      (CommandLine.match passingInterface ["sub", "one"]).isOk = true ∧
      "--" ∉ ["sub", "one"] ∧ (Modifier.runtime .production).text ∉ ["sub", "one"] ∧
      ¬ WorksOnBothSides passing "zli" passingInterface (.runtime .production) ["sub", "one"]) ∧
    ((Interface.ofTree shadowing "zli").run.value = .ok shadowingInterface ∧
      (CommandLine.match shadowingInterface []).isOk = true ∧
      ¬ WorksOnBothSides shadowing "zli" shadowingInterface (.runtime .production) []) := by
  refine ⟨⟨rfl, rfl, by decide, by decide, ?_⟩, ⟨rfl, rfl, ?_⟩⟩
  · rintro ⟨v, -, hv, hon⟩
    obtain rfl := Except.ok.inj hv
    exact absurd hon (by decide)
  · rintro ⟨v, hv, -, hon⟩
    obtain rfl := Except.ok.inj hv
    exact absurd hon (by decide)

end CommandFiles
