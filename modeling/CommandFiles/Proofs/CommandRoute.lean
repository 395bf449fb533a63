import CommandFiles.CommandLine.Invocation
import CommandFiles.Proofs.InterfaceNames
import CommandFiles.Proofs.MatchRun
import Mathlib.Data.List.Forall2

/-! # One route through tree and interface

Arguments are matched against the interface, an invocation descends through the tree by the names
of the levels, and help is looked up in the interface by the names of the invocation. All three end
at the same place: the interface that the last level was read for is the one built for the command
that the invocation asks for. -/
namespace CommandFiles

open CommandLine

namespace Interface

/-! ## Commands beside their interfaces -/

/-- The commands of a list that get an interface, in their order: those whose name is neither
`help` nor that of an earlier command. -/
def registeredAmong (seen : List String) : List Command → List Command
  | [] => []
  | c :: rest =>
    if c.name = Naming.helpName ∨ c.name ∈ seen then registeredAmong seen rest
    else c :: registeredAmong (c.name :: seen) rest

/-- Whether an interface is the one built for a command, with the aliases it was left. -/
def IsBuiltFor (c : Command) (i : Interface) : Prop :=
  ∃ u below, (ofSubcommand c).run.value = .ok (.mk u below) ∧
    i = .mk { u with aliases := i.usage.aliases } below

/-- Whether the commands below a command are the ones the interfaces below an interface were built
for. -/
def HasBelow (c : Command) (i : Interface) : Prop :=
  Registered (c.subcommands.map Command.name) c.subcommands [] [] i.subcommands

/-- The interfaces of a list of commands stand in the order of the commands that get one. -/
theorem Registered.forall₂ {names seenNames seenAliases : List String} {cs : List Command}
    {is : List Interface} (h : Registered names cs seenNames seenAliases is) :
    List.Forall₂ (fun c i => IsBuiltFor c i ∧ HasBelow c i) (registeredAmong seenNames cs) is := by
  induction h with
  | nil => exact .nil
  | skip hs _ ih => rwa [registeredAmong, if_pos hs]
  | keep hn hs hi hbelow _ _ ih =>
    rw [registeredAmong, name_mk, if_neg (not_or.mpr ⟨hn, hs⟩)]
    exact .cons ⟨⟨_, _, hi, rfl⟩, hbelow⟩ ih

theorem IsBuiltFor.name_eq {c : Command} {i : Interface} (h : IsBuiltFor c i) :
    i.name = c.name := by
  obtain ⟨u, below, hb, he⟩ := h
  have hname : i.name = (mk u below).name := by rw [he, name, name, usage, usage]
  exact hname.trans (name_of_ofSubcommand hb)

theorem not_seen_of_mem_registeredAmong {seen : List String} {cs : List Command} {c : Command}
    (h : c ∈ registeredAmong seen cs) : c.name ≠ Naming.helpName ∧ c.name ∉ seen := by
  induction cs generalizing seen with
  | nil => cases h
  | cons first rest ih =>
    unfold registeredAmong at h
    split at h
    · exact ih h
    · next hf =>
      rw [not_or] at hf
      rcases List.mem_cons.mp h with rfl | h
      · exact hf
      · obtain ⟨hn, hs⟩ := ih h
        exact ⟨hn, fun hm => hs (List.mem_cons_of_mem _ hm)⟩

/-- A command that gets an interface is the first of its name. -/
theorem find?_of_mem_registeredAmong {seen : List String} {cs : List Command} {c : Command}
    (h : c ∈ registeredAmong seen cs) : cs.find? (fun sub => sub.name = c.name) = some c := by
  induction cs generalizing seen with
  | nil => cases h
  | cons first rest ih =>
    have hother : first.name ≠ c.name → rest.find? (fun sub => sub.name = c.name) = some c →
        (first :: rest).find? (fun sub => sub.name = c.name) = some c := by
      intro hne hrest
      rw [List.find?_cons_of_neg (by simpa using hne), hrest]
    obtain ⟨hhelp, hseen⟩ := not_seen_of_mem_registeredAmong h
    unfold registeredAmong at h
    split at h
    · next hf =>
      refine hother (fun he => ?_) (ih h)
      rcases hf with hf | hf
      · exact hhelp (he ▸ hf)
      · exact hseen (he ▸ hf)
    · rcases List.mem_cons.mp h with rfl | h
      · exact List.find?_cons_of_pos (by simp)
      · refine hother (fun he => ?_) (ih h)
        exact (not_seen_of_mem_registeredAmong h).2 (he ▸ List.mem_cons_self)

/-! ## Looking up words -/

theorem isCalled_iff {word : String} {i : Interface} :
    isCalled word i = true ↔ word ∈ i.callWords := by
  rw [isCalled, Bool.or_eq_true, decide_eq_true_eq, List.contains_iff_mem, callWords,
    List.mem_cons, eq_comm]

/-- Where no word calls two commands, a word finds the command it calls. -/
theorem find?_isCalled {is : List Interface} {i : Interface} {word : String}
    (hd : (is.flatMap callWords).Nodup) (hi : i ∈ is) (hw : word ∈ i.callWords) :
    is.find? (isCalled word) = some i := by
  induction is with
  | nil => cases hi
  | cons first rest ih =>
    rw [List.flatMap_cons, List.nodup_append] at hd
    obtain ⟨-, hrest, hdiff⟩ := hd
    rcases List.mem_cons.mp hi with rfl | hi
    · exact List.find?_cons_of_pos (isCalled_iff.mpr hw)
    · rw [List.find?_cons_of_neg, ih hrest hi]
      intro hc
      exact hdiff _ (isCalled_iff.mp hc) _ (List.mem_flatMap.mpr ⟨i, hi, hw⟩) rfl

/-- What a word finds is found under its own name, and the command it was built for is the first of
that name. -/
theorem HasBelow.of_find? {c : Command} {i sub : Interface} {word : String} (h : HasBelow c i)
    (hf : i.find? word = some sub) :
    ∃ (k : Nat) (node : Command), (registeredAmong [] c.subcommands)[k]? = some node ∧ i.subcommands[k]? = some sub ∧
      IsBuiltFor node sub ∧ HasBelow node sub ∧ i.find? node.name = some sub ∧
      c.subcommands.find? (fun s => s.name = node.name) = some node := by
  have hmem : sub ∈ i.subcommands := List.mem_of_find?_eq_some hf
  have hpair := h.forall₂
  obtain ⟨k, hk, hsub⟩ := List.getElem_of_mem hmem
  have hk' : k < (registeredAmong [] c.subcommands).length := by rwa [hpair.length_eq]
  obtain ⟨hbuilt, hbelow⟩ := hpair.get hk' hk
  rw [List.get_eq_getElem, List.get_eq_getElem, hsub] at hbuilt hbelow
  refine ⟨k, _, List.getElem?_eq_getElem hk', by rw [List.getElem?_eq_getElem hk, hsub], hbuilt,
    hbelow, ?_, find?_of_mem_registeredAmong (List.getElem_mem hk')⟩
  rw [← hbuilt.name_eq]
  have hwords := (List.nodup_cons.mp (Registered.words_nodup h)).2
  exact find?_isCalled hwords hmem List.mem_cons_self

end Interface

/-! ## Routes -/

open Interface

/-- A command below a command and an interface below an interface, reached side by side: at every
step the command is at the same place among those that get an interface as the interface is among
those below. The names are those of the commands on the way. -/
inductive Route : Command → Interface → List String → Command → Interface → Prop where
  | here {c : Command} {i : Interface} : Route c i [] c i
  | down {c node target : Command} {i sub reached : Interface} {k : Nat} {names : List String} :
      (registeredAmong [] c.subcommands)[k]? = some node → i.subcommands[k]? = some sub →
      Route node sub names target reached → Route c i (node.name :: names) target reached

/-- Where a run ends: what its last level was read for, and the way there. -/
structure EndsAt (c : Command) (i : Interface) (run : List (Interface × Level))
    (names : List String) (target : Command) (reached : Interface) : Prop where
  route : Route c i names target reached
  built : names = [] ∧ target = c ∧ reached = i ∨ IsBuiltFor target reached
  names_eq : names = run.tail.map (·.1.name)
  found : i.findPath? names = some reached
  last : (run.getLast?.map Prod.fst) = some reached

/-- Descending by the levels of a run ends at the command that the last interface of the run was
built for. -/
theorem CommandLine.Reading.endsAt {inherited : List Parameter} {i : Interface} {s : Progress}
    {arguments : List String} {run : List (Interface × Level)}
    (h : Reading inherited i s arguments run) {c : Command} (hc : HasBelow c i) {own : Level}
    {more : List Level} (hrun : run.map Prod.snd = own :: more) :
    ∃ reached, EndsAt c i run (Invocation.descend c own more).2.2.2
      (Invocation.descend c own more).1 reached := by
  induction h generalizing c own more with
  | done _ =>
    cases hrun
    exact ⟨_, .here, .inl ⟨rfl, rfl, rfl⟩, rfl, rfl, rfl⟩
  | along _ _ _ ih => exact ih hc hrun
  | @down i s text sub rest below first _ hf hbelow _ ih =>
    obtain ⟨k, node, hnode, hsub, hbuilt, hnext, hfind, hfirst⟩ := HasBelow.of_find? hc hf
    obtain ⟨next, tail, rfl, hname⟩ := hbelow.exists_cons
    cases hrun
    obtain ⟨reached, hend⟩ := ih hnext rfl
    have hlevel : next.name = node.name := hname.trans hbuilt.name_eq
    have hdescend : Invocation.descend c first (next :: tail.map Prod.snd) =
        let r := Invocation.descend node next (tail.map Prod.snd)
        (r.1, r.2.1, next :: r.2.2.1, node.name :: r.2.2.2) := by
      rw [Invocation.descend, hlevel, hfirst]
    refine ⟨reached, ?_⟩
    rw [List.map_cons, hdescend]
    refine ⟨.down hnode hsub hend.route, ?_, ?_, ?_, ?_⟩
    · rcases hend.built with ⟨-, ht, rfl⟩ | hb
      · refine .inr ?_
        dsimp only
        rwa [ht]
      · exact .inr hb
    · simp only [hend.names_eq, List.tail_cons, List.map_cons, hbuilt.name_eq]
    · rw [findPath?, hfind]
      exact hend.found
    · rw [List.getLast?_cons_cons]
      exact hend.last

/-- The root of a tree and the interface of the tree. -/
theorem hasBelow_of_ofTree {tree : Command} {fallback : String} {i : Interface}
    (h : (ofTree tree fallback).run.value = .ok i) : HasBelow tree i := by
  obtain ⟨u, below, -, hbelow, rfl⟩ := ofTree_eq_ok h
  exact hbelow

/-- The flags of an interface that hold everywhere below it. -/
def Interface.inherited (i : Interface) : List Parameter := i.usage.parameters.filter (·.isGlobal)

/-- **Matching, the invocation and help take one route**: the command an invocation asks for is the
one that the interface of the last level was built for, its path has the names on the way, and
these names lead to the same interface. -/
theorem ofLevels_endsAt {tree : Command} {fallback : String} {i : Interface}
    {arguments : List String} {levels : List Level}
    (hi : (ofTree tree fallback).run.value = .ok i)
    (hm : CommandLine.match i arguments = .ok levels) :
    ∃ run reached, Reading i.inherited i {} arguments run ∧ run.map Prod.snd = levels ∧
      (Invocation.ofLevels tree fallback levels).path.head? = some (rootName tree fallback) ∧
      EndsAt tree i run (Invocation.ofLevels tree fallback levels).path.tail
        (Invocation.ofLevels tree fallback levels).command reached := by
  obtain ⟨run, hrun, rfl⟩ := exists_reading hm
  obtain ⟨own, more, rfl, -⟩ := hrun.exists_cons
  obtain ⟨reached, hend⟩ := hrun.endsAt (hasBelow_of_ofTree hi) rfl
  exact ⟨_, reached, hrun, rfl, rfl, hend⟩

/-- Siblings that share a name, one of which is the alias of another, and below them the same. -/
def crossing : Command :=
  .mk {}
    [.mk { name := "deploy", secondName := some "sub" } [],
      .mk { name := "sub", secondName := some "s" }
        [.mk { name := "run", secondName := some "r" } [], .mk { name := "run" } []],
      .mk { name := "sub" } []]

/-- The interface of those siblings. -/
def crossingInterface : Interface :=
  let usage := fun (name : String) (aliases : List String) (ps : List Parameter) =>
    ({ name := name, about := some (Command.defaultDescription name), aliases := aliases
       parameters := ps } : Usage)
  .mk { name := "zli", parameters := globalFlags }
    [.mk (usage "deploy" [] [positional]) [],
      .mk (usage "sub" ["s"] []) [.mk (usage "run" ["r"] [positional]) []]]

/-- The levels of a call by aliases. -/
def crossingLevels : List Level :=
  [⟨"zli", []⟩, ⟨"sub", []⟩, ⟨"run", [("_", .values ["now"])]⟩]

theorem ofLevels_endsAt_crossing :
    (ofTree crossing "zli").run.value = .ok crossingInterface ∧
      CommandLine.match crossingInterface ["s", "r", "now"] = .ok crossingLevels ∧
      (Invocation.ofLevels crossing "zli" crossingLevels).path = ["zli", "sub", "run"] ∧
      ∃ run reached,
        Reading crossingInterface.inherited crossingInterface {} ["s", "r", "now"] run ∧
          EndsAt crossing crossingInterface run ["sub", "run"]
            (Invocation.ofLevels crossing "zli" crossingLevels).command reached := by
  have hi : (ofTree crossing "zli").run.value = .ok crossingInterface := rfl
  have hm : CommandLine.match crossingInterface ["s", "r", "now"] = .ok crossingLevels := rfl
  have hpath : (Invocation.ofLevels crossing "zli" crossingLevels).path =
      ["zli", "sub", "run"] := rfl
  obtain ⟨run, reached, hrun, -, -, hend⟩ := ofLevels_endsAt hi hm
  rw [hpath] at hend
  exact ⟨hi, hm, hpath, run, reached, hrun, hend⟩

end CommandFiles
