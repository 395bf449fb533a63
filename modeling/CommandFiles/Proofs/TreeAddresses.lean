import CommandFiles.Proofs.TreeSteps

/-! # What a file leaves alone in a tree

A command of a tree has an address, the places on the way to it. The command of a file changes a
tree at one address only: at the end of the path that the names of its directories lead along, or
right below it. A change at an address leaves everything off the way to it as it was; on the way
every command keeps what it declares and the places of the commands below it. -/
namespace CommandFiles.Command

/-! ## Addresses -/

/-- The command at an address: the places on the way to it, the outermost first. -/
def at? (c : Command) : List Nat → Option Command
  | [] => some c
  | k :: rest => c.subcommands[k]?.bind fun sub => sub.at? rest

/-- Changes the command at an address, if there is one. -/
def changeAt (change : Command → Command) : List Nat → Command → Command
  | [], c => change c
  | k :: rest, c => c.withSubcommands (c.subcommands.modify k (changeAt change rest))

variable {c sub node tree command : Command} {change : Command → Command} {k : Nat}
  {address path more : List Nat} {dirs segments : List String} {directory file : String}

@[simp] theorem subcommands_withSubcommands (c : Command) (subs : List Command) :
    (c.withSubcommands subs).subcommands = subs := rfl

@[simp] theorem declared_withSubcommands (c : Command) (subs : List Command) :
    (c.withSubcommands subs).declared = c.declared := rfl

theorem at?_cons : c.at? (k :: address) = some node ↔
    ∃ sub, c.subcommands[k]? = some sub ∧ sub.at? address = some node := by
  rw [at?, Option.bind_eq_some_iff]

theorem at?_append (h : c.at? address = some sub) : c.at? (address ++ more) = sub.at? more := by
  induction address generalizing c with
  | nil =>
    cases h
    rfl
  | cons k rest ih =>
    obtain ⟨next, hnext, hrest⟩ := at?_cons.mp h
    rw [List.cons_append, at?, hnext]
    exact ih hrest

/-! ## Changes at an address -/

/-- On the way to a change stands what the change does further down. -/
theorem at?_changeAt (h : tree.at? address = some node) :
    (changeAt change (address ++ more) tree).at? address = some (changeAt change more node) := by
  induction address generalizing tree with
  | nil =>
    cases h
    rfl
  | cons k rest ih =>
    obtain ⟨sub, hsub, hrest⟩ := at?_cons.mp h
    refine at?_cons.mpr ⟨changeAt change (rest ++ more) sub, ?_, ih hrest⟩
    simp [changeAt, hsub]

/-- Off the way to a change nothing is changed, if the change itself only adds commands. -/
theorem at?_changeAt_off (hadds : ∀ c, c.subcommands <+: (change c).subcommands)
    (h : tree.at? address = some node) (hoff : ¬ address <+: path) :
    (changeAt change path tree).at? address = some node := by
  induction path generalizing tree address with
  | nil =>
    cases address with
    | nil => exact absurd List.nil_prefix hoff
    | cons k rest =>
      obtain ⟨sub, hsub, hrest⟩ := at?_cons.mp h
      obtain ⟨added, hadded⟩ := hadds tree
      refine at?_cons.mpr ⟨sub, ?_, hrest⟩
      rw [changeAt, ← hadded]
      exact List.getElem?_append_left (List.getElem?_eq_some_iff.mp hsub).1 ▸ hsub
  | cons j below ih =>
    cases address with
    | nil => exact absurd List.nil_prefix hoff
    | cons k rest =>
      obtain ⟨sub, hsub, hrest⟩ := at?_cons.mp h
      rw [List.cons_prefix_cons, not_and] at hoff
      by_cases hk : k = j
      · subst hk
        refine at?_cons.mpr ⟨changeAt change below sub, ?_, ih hrest (hoff rfl)⟩
        simp [changeAt, hsub]
      · refine at?_cons.mpr ⟨sub, ?_, hrest⟩
        simp [changeAt, hsub, Ne.symm hk]

/-- What a change at an address keeps of a tree and what it does there. -/
structure Touches (tree changed : Command) (spot : List Nat) (change : Command → Command) :
    Prop where
  /-- Every command off the way stays at its address, with all that lies below it. -/
  off : ∀ address node, tree.at? address = some node → ¬ address <+: spot →
    changed.at? address = some node
  /-- Every command on the way stays at its address with what it declares, and no command is added
  right below it. -/
  along : ∀ address node, tree.at? address = some node → address <+: spot → address ≠ spot →
    ∃ node', changed.at? address = some node' ∧ node'.declared = node.declared ∧
      node'.subcommands.length = node.subcommands.length
  /-- There is a command at the address, and it is the one that is changed. -/
  changed : ∃ node, tree.at? spot = some node ∧ changed.at? spot = some (change node)

theorem touches_changeAt (hadds : ∀ c, c.subcommands <+: (change c).subcommands)
    (h : tree.at? path = some node) : Touches tree (changeAt change path tree) path change where
  off address other hother hoff := at?_changeAt_off hadds hother hoff
  along address other hother hpath hne := by
    obtain ⟨more, rfl⟩ := hpath
    refine ⟨changeAt change more other, at?_changeAt hother, ?_⟩
    cases more with
    | nil => exact absurd (List.append_nil address).symm hne
    | cons k rest => simp [changeAt]
  changed := by
    refine ⟨node, h, ?_⟩
    have hspot : (changeAt change (path ++ []) tree).at? path = some (change node) := at?_changeAt h
    rwa [List.append_nil] at hspot

/-! ## Where a file lands -/

/-- Whether the names of directories lead along a path to a command. Every step goes to the first
command that stands for the directory. -/
inductive Leads : Command → List String → List Nat → Command → Prop where
  | here (c : Command) : Leads c [] [] c
  | down {c sub node : Command} {directory : String} {rest : List String} {k : Nat}
    {path : List Nat} :
    c.subcommands.findIdx? (standsFor directory) = some k → c.subcommands[k]? = some sub →
    Leads sub rest path node → Leads c (directory :: rest) (k :: path) node

/-- What a file does where it lands: its command is laid over the one there, or another command is
added at the end of those below it. -/
inductive Change where
  | overlay
  | append (added : Command)

/-- A change made by a command. -/
def Change.apply (command : Command) : Change → Command → Command
  | overlay, c => c.overlay command
  | append added, c => c.withSubcommands (c.subcommands ++ [added])

/-- Where the command of a file changes a tree, and how. Its directories lead as far as there are
commands for them; what is missing is added there with all that lies below it. -/
inductive Lands (command tree : Command) : List String → List Nat → Change → Prop where
  /-- Without any names the command is laid over the tree itself. -/
  | itself : Lands command tree [] [] .overlay
  /-- An index file is laid over the command of its directory. -/
  | index {dirs : List String} {file : String} {path : List Nat} {node : Command} :
    Leads tree dirs path node → isIndexFile file = true →
    Lands command tree (dirs ++ [file]) path .overlay
  /-- Any other file is laid over the first command of its name, if that has no file. -/
  | placeholder {dirs : List String} {file : String} {path : List Nat} {node twin : Command}
    {k : Nat} :
    Leads tree dirs path node → isIndexFile file = false →
    node.subcommands.findIdx? (fun c => c.name = command.name) = some k →
    node.subcommands[k]? = some twin → twin.filePath = none →
    Lands command tree (dirs ++ [file]) (path ++ [k]) .overlay
  /-- Where the first command of its name has a file, it is added, laid over a copy of that one. -/
  | twin {dirs : List String} {file : String} {path : List Nat} {node twin : Command} :
    Leads tree dirs path node → isIndexFile file = false →
    node.subcommands.find? (fun c => c.name = command.name) = some twin → twin.filePath ≠ none →
    Lands command tree (dirs ++ [file]) path (.append (twin.overlay command))
  /-- Where no command has its name, it is added. -/
  | fresh {dirs : List String} {file : String} {path : List Nat} {node : Command} :
    Leads tree dirs path node → isIndexFile file = false →
    (∀ sub ∈ node.subcommands, sub.name ≠ command.name) →
    Lands command tree (dirs ++ [file]) path
      (.append ((Command.placeholder command.name).overlay command))
  /-- Where no command stands for the next directory, one is added for it. -/
  | directory {dirs : List String} {directory file : String} {rest : List String}
    {path : List Nat} {node : Command} :
    Leads tree dirs path node → (∀ sub ∈ node.subcommands, sub.standsFor directory = false) →
    Lands command tree (dirs ++ directory :: file :: rest) path
      (.append (merge command (file :: rest) (Command.placeholder directory)))

theorem Leads.at?_eq (h : Leads tree dirs path node) : tree.at? path = some node := by
  induction h with
  | here c => rfl
  | down _ hsub _ ih => exact at?_cons.mpr ⟨_, hsub, ih⟩

variable {spot : List Nat} {how : Change}

/-- There is a command where a file lands. -/
theorem Lands.exists_at? (h : Lands command tree segments spot how) :
    ∃ node, tree.at? spot = some node := by
  cases h with
  | itself => exact ⟨tree, rfl⟩
  | index hleads _ | twin hleads _ _ _ | fresh hleads _ _ | directory hleads _ =>
    exact ⟨_, hleads.at?_eq⟩
  | placeholder hleads _ _ htwin _ =>
    exact ⟨_, (at?_append hleads.at?_eq).trans (at?_cons.mpr ⟨_, htwin, rfl⟩)⟩

/-- Where a file lands below a directory is where it lands in the command that stands for it. -/
theorem Lands.down (hk : c.subcommands.findIdx? (standsFor directory) = some k)
    (hsub : c.subcommands[k]? = some sub) (hne : segments ≠ [])
    (h : Lands command sub segments spot how) :
    Lands command c (directory :: segments) (k :: spot) how := by
  cases h with
  | itself => exact absurd rfl hne
  | index hleads hindex => exact .index (.down hk hsub hleads) hindex
  | placeholder hleads hplain hfirst htwin hfile =>
    exact .placeholder (.down hk hsub hleads) hplain hfirst htwin hfile
  | twin hleads hplain hfirst hfile => exact .twin (.down hk hsub hleads) hplain hfirst hfile
  | fresh hleads hplain hnone => exact .fresh (.down hk hsub hleads) hplain hnone
  | directory hleads hnone => exact .directory (.down hk hsub hleads) hnone

/-! ## Where a merge changes a tree -/

theorem changeFirst?_eq (fits : Command → Bool) (cs : List Command) :
    changeFirst? fits change cs = (cs.findIdx? fits).map fun k => cs.modify k change := by
  induction cs with
  | nil => rfl
  | cons c rest ih =>
    by_cases hc : fits c = true
    · simp [changeFirst?, List.findIdx?_cons, hc]
    · simp [changeFirst?, List.findIdx?_cons, hc, ih, Function.comp_def]

theorem modify_congr {cs : List Command} {f g : Command → Command} (hsub : cs[k]? = some sub)
    (h : f sub = g sub) : cs.modify k f = cs.modify k g := by
  rw [List.modify_eq_set_getElem?, List.modify_eq_set_getElem?, hsub]
  exact congrArg (fun c => cs.set k c) h

/-- The first command that fits, and its place. -/
theorem exists_of_findIdx? {fits : Command → Bool} {cs : List Command}
    (h : cs.findIdx? fits = some k) : ∃ sub, cs[k]? = some sub ∧ cs.find? fits = some sub := by
  obtain ⟨hk, hfits, hbefore⟩ := List.findIdx?_eq_some_iff_getElem.mp h
  refine ⟨cs[k], List.getElem?_eq_getElem hk, ?_⟩
  have hnone : ∀ j (hj : j < k), (!fits cs[j]) = true := fun j hj => by simpa using hbefore j hj
  exact List.find?_eq_some_iff_getElem.mpr ⟨hfits, k, hk, rfl, hnone⟩

/-- **A file changes a tree where it lands**, and in no other way. -/
theorem exists_lands (command : Command) (segments : List String) (tree : Command) :
    ∃ spot how, Lands command tree segments spot how ∧
      merge command segments tree = changeAt (how.apply command) spot tree := by
  induction segments generalizing tree with
  | nil => exact ⟨[], .overlay, .itself, by rw [merge]; rfl⟩
  | cons first rest ih =>
    cases rest with
    | nil =>
      by_cases hindex : isIndexFile first = true
      · exact ⟨[], .overlay, .index (.here tree) hindex, merge_index command hindex tree⟩
      have hplain : isIndexFile first = false := by simpa using hindex
      rw [merge_plain command hplain, place]
      cases hfirst : tree.subcommands.findIdx? (fun c => c.name = command.name) with
      | none =>
        have hnone := List.findIdx?_eq_none_iff.mp hfirst
        have hfind : tree.subcommands.find? (fun c => c.name = command.name) = none :=
          List.find?_eq_none.mpr fun c hc => by simp [hnone c hc]
        rw [hfind]
        exact ⟨[], _, .fresh (.here tree) hplain (by simpa using hnone), rfl⟩
      | some k =>
        obtain ⟨twin, htwin, hfind⟩ := exists_of_findIdx? hfirst
        rw [hfind]
        cases hfile : twin.filePath with
        | none =>
          refine ⟨[k], .overlay, .placeholder (.here tree) hplain hfirst htwin hfile, ?_⟩
          simp [isPlaceholder, hfile, changeFirst?_eq, hfirst, changeAt, Change.apply]
        | some path =>
          refine ⟨[], _, .twin (.here tree) hplain hfind (by simp [hfile]), ?_⟩
          simp [isPlaceholder, hfile, changeAt, Change.apply]
    | cons file more =>
      rw [merge, changeFirst?_eq]
      cases hfirst : tree.subcommands.findIdx? (standsFor first) with
      | none =>
        exact ⟨[], _, .directory (.here tree) (List.findIdx?_eq_none_iff.mp hfirst), rfl⟩
      | some k =>
        obtain ⟨sub, hsub, -⟩ := exists_of_findIdx? hfirst
        obtain ⟨spot, how, hlands, hmerge⟩ := ih sub
        refine ⟨k :: spot, how, hlands.down hfirst hsub (List.cons_ne_nil _ _), ?_⟩
        change tree.withSubcommands (tree.subcommands.modify k (merge command (file :: more))) =
          tree.withSubcommands (tree.subcommands.modify k (changeAt (how.apply command) spot))
        rw [modify_congr hsub hmerge]

theorem Change.adds (how : Change) (command c : Command) :
    c.subcommands <+: (how.apply command c).subcommands := by
  cases how with
  | overlay => exact List.prefix_append _ _
  | append added => exact List.prefix_append _ _

/-- **A file touches its own path only.** It lands at one address. Off the way there every command
stays with all that lies below it; on the way no command is added and none declares anything else;
where it lands either one command is added behind the others, or its own command is laid over the
one there, the only one that declares anything else afterwards. -/
theorem merge_touches_own_path (command : Command) (segments : List String) (tree : Command) :
    ∃ spot how, Lands command tree segments spot how ∧
      Touches tree (merge command segments tree) spot (how.apply command) ∧
      ∀ address node, tree.at? address = some node →
        ∃ node', (merge command segments tree).at? address = some node' ∧
          (node'.declared = node.declared ∨ address = spot ∧ how = .overlay) := by
  obtain ⟨spot, how, hlands, hmerge⟩ := exists_lands command segments tree
  obtain ⟨landed, hlanded⟩ := hlands.exists_at?
  have htouches : Touches tree (merge command segments tree) spot (how.apply command) :=
    hmerge ▸ touches_changeAt (how.adds command) hlanded
  refine ⟨spot, how, hlands, htouches, fun address node hnode => ?_⟩
  by_cases hspot : address = spot
  · subst hspot
    obtain ⟨same, hsame, hchanged⟩ := htouches.changed
    obtain rfl := Option.some.inj (hnode.symm.trans hsame)
    cases how with
    | overlay => exact ⟨_, hchanged, .inr ⟨rfl, rfl⟩⟩
    | append added => exact ⟨_, hchanged, .inl rfl⟩
  by_cases hpath : address <+: spot
  · obtain ⟨node', hnode', hdeclared, -⟩ := htouches.along address node hnode hpath hspot
    exact ⟨node', hnode', .inl hdeclared⟩
  · exact ⟨node, htouches.off address node hnode hpath, .inl rfl⟩

end CommandFiles.Command
