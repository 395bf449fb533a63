import CommandFiles.Proofs.ActionGate
import CommandFiles.Proofs.GivenFlags
import CommandFiles.CommandLine.Invocation

/-! # What an invocation takes from its levels

An invocation reads its levels in four ways: the names lead to the command, the last level holds the
arguments, and every level may hold flags for runtimes and for more output. Each of them is stated
for levels that differ in what was given for one parameter. -/
namespace CommandFiles

open CommandLine

/-! ## Flags -/

/-- Whether a flag was given at some of the levels. -/
def anyFlag (levels : List Level) (id : String) : Bool := levels.any fun l => l.hasFlag id

theorem RuntimeSet.contains_foldl_insert (rs : List Runtime) (s : RuntimeSet) (r : Runtime) :
    (rs.foldl insert s).contains r = (s.contains r || rs.contains r) := by
  induction rs generalizing s with
  | nil => simp
  | cons q rest ih =>
    have hsymm : (q == r) = (r == q) := by cases q <;> cases r <;> rfl
    rw [List.foldl_cons, ih, contains_insert, List.contains_cons, Bool.or_comm (q == r),
      Bool.or_assoc, hsymm]

theorem RuntimeSet.ext_contains {s t : RuntimeSet} (h : ∀ r, s.contains r = t.contains r) :
    s = t := by
  obtain ⟨a, b, c, d⟩ := s
  obtain ⟨a', b', c', d'⟩ := t
  have h₁ := h .local
  have h₂ := h .develop
  have h₃ := h .staging
  have h₄ := h .production
  simp only [contains] at h₁ h₂ h₃ h₄
  rw [h₁, h₂, h₃, h₄]

theorem Runtime.mem_all (r : Runtime) : r ∈ all := by
  cases r <;> decide

namespace Invocation

/-- A runtime is asked for exactly where its flag was given. -/
theorem contains_runtimesOf (levels : List Level) (r : Runtime) :
    (runtimesOf levels).contains r = anyFlag levels r.flag := by
  rw [runtimesOf, RuntimeSet.ofList, RuntimeSet.contains_foldl_insert, Bool.eq_iff_iff]
  have hempty : ({} : RuntimeSet).contains r = false := by cases r <;> rfl
  rw [hempty, Bool.false_or, List.contains_iff_mem, List.mem_flatMap, anyFlag, List.any_eq_true]
  simp only [List.mem_filter, Runtime.mem_all, true_and]

/-! ## Names -/

section Descend

variable {c : Command} {own own' l : Level} {levels levels' : List Level}

variable (c own own') in
/-- Only the names of the levels lead to a command. -/
theorem descend_congr (h : levels.map (·.name) = levels'.map (·.name)) :
    (descend c own levels).1 = (descend c own' levels').1 ∧
      (descend c own levels).2.2.2 = (descend c own' levels').2.2.2 := by
  induction levels generalizing c own own' levels' with
  | nil =>
    rw [List.map_nil, List.nil_eq, List.map_eq_nil_iff] at h
    subst h
    exact ⟨rfl, rfl⟩
  | cons l rest ih =>
    cases levels' with
    | nil => cases h
    | cons l' rest' =>
      rw [List.map_cons, List.map_cons, List.cons.injEq] at h
      rw [descend, descend, h.1]
      cases c.subcommands.find? fun sub => sub.name = l'.name with
      | none => exact ⟨rfl, rfl⟩
      | some sub =>
        obtain ⟨h₁, h₂⟩ := ih sub l l' h.2
        exact ⟨h₁, congrArg (sub.name :: ·) h₂⟩

/-- Where every level leads further down, all of them count. -/
theorem levels_of_descend (h : (descend c own levels).2.2.2.length = levels.length) :
    (descend c own levels).2.1 = levels.getLast?.getD own ∧ (descend c own levels).2.2.1 = levels := by
  induction levels generalizing c own with
  | nil => exact ⟨rfl, rfl⟩
  | cons l rest ih =>
    rw [descend] at h ⊢
    cases hf : c.subcommands.find? fun sub => sub.name = l.name with
    | none =>
      rw [hf] at h
      cases h
    | some sub =>
      rw [hf] at h
      obtain ⟨h₁, h₂⟩ := ih (Nat.succ.inj h)
      refine ⟨?_, congrArg (l :: ·) h₂⟩
      rw [List.getLast?_cons]
      exact h₁

end Descend

/-! ## Arguments -/

theorem Json.insertMember_twice (key : String) (v w : Json) (members : List (String × Json)) :
    Json.insertMember key v (Json.insertMember key w members) = Json.insertMember key v members := by
  induction members with
  | nil => simp [Json.insertMember]
  | cons member rest ih =>
    obtain ⟨k, old⟩ := member
    by_cases hlt : key < k
    · simp [Json.insertMember, hlt]
    · by_cases hk : key = k
      · simp [Json.insertMember, hk]
      · simp [Json.insertMember, hlt, hk, ih]

section Arguments

variable {key : String} {v : Given} {l l' : Level}

theorem addOption_of_differsAt (h : DiffersAt key v l.given l'.given)
    (hkey : key ∈ Naming.reserved) : addOption l' = addOption l := by
  funext args o
  unfold addOption
  by_cases ho : Naming.reserved.contains o.long = true
  · rw [if_pos ho, if_pos ho]
  · have hne : o.long ≠ key := by
      rintro rfl
      simp [hkey] at ho
    have hlookup := h.elsewhere _ hne
    rw [if_neg ho, if_neg ho, optionValue?, optionValue?, Level.hasFlag, Level.hasFlag,
      Level.values?, Level.values?, hlookup]

/-- A flag that no command can declare leaves the arguments as they are. -/
theorem argumentsAt_of_differsAt (h : DiffersAt key v l.given l'.given)
    (hkey : key ∈ Naming.reserved) (hne : key ≠ Naming.positionalName) (c : Command) :
    argumentsAt l' c = argumentsAt l c := by
  rw [argumentsAt, argumentsAt, addOption_of_differsAt h hkey, addPositional, addPositional,
    Level.values?, Level.values?, h.elsewhere _ hne.symm]


/-- Other arguments without a flag replace those that there were. -/
theorem argumentsAt_of_positional {texts more : List String}
    (h : DiffersAt Naming.positionalName (.values more) l.given l'.given)
    (hl : l.values? Naming.positionalName = some texts) (ht : texts ≠ []) (hm : more ≠ [])
    (c : Command) :
    argumentsAt l' c =
      (argumentsAt l c).insert Naming.positionalName (.array (more.map .string)) := by
  have hl' : l'.values? Naming.positionalName = some more := by rw [Level.values?, h.here]
  obtain ⟨t, ts, rfl⟩ := List.exists_cons_of_ne_nil ht
  obtain ⟨n, ns, rfl⟩ := List.exists_cons_of_ne_nil hm
  rw [argumentsAt, argumentsAt, addOption_of_differsAt h (by decide), addPositional, addPositional,
    hl, hl']
  exact (Json.insertMember_twice _ _ _ _).symm

end Arguments

/-! ## Invocations -/

section Levels

variable {tree : Command} {fallback key : String} {before after : List Level} {l l' : Level}

theorem anyFlag_of_flag (h : DiffersAt key .flag l.given l'.given) (k : String) :
    anyFlag (before ++ l' :: after) k = (decide (k = key) || anyFlag (before ++ l :: after) k) := by
  have hflag : l'.hasFlag k = (decide (k = key) || l.hasFlag k) := by
    by_cases hk : k = key
    · simp [Level.hasFlag, hk, h.here]
    · simp [Level.hasFlag, hk, h.elsewhere k hk]
  simp only [anyFlag, List.any_append, List.any_cons, hflag]
  cases decide (k = key) <;> simp

theorem anyFlag_of_values {texts : List String} (h : DiffersAt key (.values texts) l.given l'.given)
    {k : String} (hk : k ≠ key) :
    anyFlag (before ++ l' :: after) k = anyFlag (before ++ l :: after) k := by
  simp only [anyFlag, List.any_append, List.any_cons, Level.hasFlag, h.elsewhere k hk]

/-- The parts of an invocation whose levels all count. -/
theorem parts_of_ofLevels {levels : List Level}
    (h : (ofLevels tree fallback levels).path.length = levels.length) :
    (ofLevels tree fallback levels).arguments =
        argumentsAt (levels.getLast?.getD ⟨"", []⟩) (ofLevels tree fallback levels).command ∧
      (∀ r, (ofLevels tree fallback levels).runtimes.contains r = anyFlag levels r.flag) ∧
      (ofLevels tree fallback levels).verbose = anyFlag levels Naming.verboseName := by
  cases levels with
  | nil => cases h
  | cons own more =>
    have hlength : (descend tree own more).2.2.2.length = more.length := Nat.succ.inj h
    obtain ⟨hlast, hbelow⟩ := levels_of_descend hlength
    refine ⟨?_, fun r => ?_, ?_⟩
    · change argumentsAt (descend tree own more).2.1 _ = _
      rw [hlast, List.getLast?_cons]
      rfl
    · change (runtimesOf (own :: (descend tree own more).2.2.1)).contains r = _
      rw [hbelow, contains_runtimesOf]
    · change verboseAt (own :: (descend tree own more).2.2.1) = _
      rw [hbelow]
      rfl

variable (tree fallback) in
/-- Levels of the same names lead to the same command. -/
theorem command_of_names {levels levels' : List Level}
    (h : levels.map (·.name) = levels'.map (·.name)) :
    (ofLevels tree fallback levels).path = (ofLevels tree fallback levels').path ∧
      (ofLevels tree fallback levels).command = (ofLevels tree fallback levels').command := by
  have htail : levels.tail.map (·.name) = levels'.tail.map (·.name) := by
    rw [List.map_tail, List.map_tail, h]
  obtain ⟨hc, hn⟩ := descend_congr tree (levels.head?.getD ⟨"", []⟩)
    (levels'.head?.getD ⟨"", []⟩) htail
  exact ⟨congrArg (Interface.rootName tree fallback :: ·) hn, hc⟩

end Levels

end Invocation

/-- What a global flag stands for, asked for in an invocation. -/
def CommandLine.Modifier.switchOn (v : Invocation) : Modifier → Invocation
  | runtime r => { v with runtimes := v.runtimes.insert r }
  | verbose => { v with verbose := true }

namespace Invocation

variable {tree : Command} {fallback : String} {before after : List Level} {l l' : Level}

attribute [ext] Invocation

/-- A flag noted at one of the levels is switched on, and nothing else. -/
theorem ofLevels_of_flag (m : Modifier) (before after : List Level) (hname : l'.name = l.name)
    (hd : DiffersAt m.id .flag l.given l'.given)
    (hlength : (ofLevels tree fallback (before ++ l :: after)).path.length =
      (before ++ l :: after).length) :
    ofLevels tree fallback (before ++ l' :: after) =
      m.switchOn (ofLevels tree fallback (before ++ l :: after)) := by
  have hnames : (before ++ l' :: after).map (·.name) = (before ++ l :: after).map (·.name) := by
    simp [hname]
  obtain ⟨hpath, hcommand⟩ := command_of_names tree fallback hnames
  obtain ⟨ha, hr, hv⟩ := parts_of_ofLevels hlength
  have hlength' : (ofLevels tree fallback (before ++ l' :: after)).path.length =
      (before ++ l' :: after).length := by
    rw [hpath, hlength]
    simp
  obtain ⟨ha', hr', hv'⟩ := parts_of_ofLevels hlength'
  have harguments : (ofLevels tree fallback (before ++ l' :: after)).arguments =
      (ofLevels tree fallback (before ++ l :: after)).arguments := by
    rw [ha, ha', hcommand]
    cases after with
    | nil => simpa using argumentsAt_of_differsAt hd m.id_mem_reserved m.id_ne_positional _
    | cons next rest => simp [List.getLast?_cons]
  cases m with
  | runtime r =>
    refine Invocation.ext hpath hcommand harguments (RuntimeSet.ext_contains fun q => ?_) ?_
    · have hq : decide (q.flag = r.flag) = (r == q) := by cases q <;> cases r <;> rfl
      rw [hr', anyFlag_of_flag hd, Modifier.switchOn, RuntimeSet.contains_insert, hr, ← hq]
      rfl
    · have hne : Naming.verboseName ≠ r.flag := by cases r <;> decide
      rw [hv', anyFlag_of_flag hd]
      simpa [Modifier.id, Modifier.switchOn, hne] using hv.symm
  | verbose =>
    refine Invocation.ext hpath hcommand harguments (RuntimeSet.ext_contains fun q => ?_) ?_
    · have hne : q.flag ≠ Naming.verboseName := by cases q <;> decide
      rw [hr', anyFlag_of_flag hd]
      simpa [Modifier.id, Modifier.switchOn, hne] using (hr q).symm
    · rw [hv', anyFlag_of_flag hd]
      rfl

/-- More arguments without a flag at the last level are more arguments of the command. -/
theorem ofLevels_of_positional {texts more : List String} (hname : l'.name = l.name)
    (hd : DiffersAt Naming.positionalName (.values more) l.given l'.given)
    (hl : l.values? Naming.positionalName = some texts) (ht : texts ≠ []) (hm : more ≠ [])
    (hlength : (ofLevels tree fallback (before ++ [l])).path.length = (before ++ [l]).length) :
    ofLevels tree fallback (before ++ [l']) =
      { ofLevels tree fallback (before ++ [l]) with
        arguments := (ofLevels tree fallback (before ++ [l])).arguments.insert
          Naming.positionalName (.array (more.map .string)) } := by
  have hnames : (before ++ [l']).map (·.name) = (before ++ [l]).map (·.name) := by
    simp [hname]
  obtain ⟨hpath, hcommand⟩ := command_of_names tree fallback hnames
  obtain ⟨ha, hr, hv⟩ := parts_of_ofLevels hlength
  have hlength' : (ofLevels tree fallback (before ++ [l'])).path.length =
      (before ++ [l']).length := by
    rw [hpath, hlength]
    simp
  obtain ⟨ha', hr', hv'⟩ := parts_of_ofLevels hlength'
  refine Invocation.ext hpath hcommand ?_ (RuntimeSet.ext_contains fun q => ?_) ?_
  · rw [ha', hcommand]
    simp only [ha, List.getLast?_concat, Option.getD_some]
    exact argumentsAt_of_positional hd hl ht hm _
  · rw [hr', anyFlag_of_values hd (by cases q <;> decide), ← hr]
  · rw [hv', anyFlag_of_values hd (by decide), ← hv]

end Invocation

end CommandFiles
