import CommandFiles.Proofs.TreeMirror

/-! # What one file does to a tree

On its way down a tree the command of a file changes one of the commands that lie side by side, or
comes behind them as a new one. `Stepped` says which, and what is known of the command that is
changed or added. All other commands stay as they are. -/
namespace CommandFiles.Command

/-- A command and what lies a number of levels below it. -/
inductive ContainsAt : Nat → Command → Command → Prop where
  | self (c : Command) : ContainsAt 0 c c
  | inside {depth : Nat} {c sub node : Command} :
    sub ∈ c.subcommands → ContainsAt depth sub node → ContainsAt (depth + 1) c node

/-- Commands side by side of which one is changed, or behind which one is added. -/
inductive Stepped (changes : Command → Command → Prop) (adds : Command → Prop) :
    List Command → List Command → Prop where
  | change {before after : List Command} {c c' : Command} : changes c c' →
    Stepped changes adds (before ++ c :: after) (before ++ c' :: after)
  | add {cs : List Command} {c : Command} : adds c → Stepped changes adds cs (cs ++ [c])

namespace Stepped

variable {changes : Command → Command → Prop} {adds : Command → Prop} {old new : List Command}
  {c : Command}

/-- A command stays, or it is the one that is changed. -/
theorem stays (h : Stepped changes adds old new) (hc : c ∈ old) :
    c ∈ new ∨ ∃ c' ∈ new, changes c c' := by
  cases h with
  | @change before after k k' hchange =>
    rw [List.mem_append, List.mem_cons] at hc
    rcases hc with hc | rfl | hc
    · exact .inl (by simp [hc])
    · exact .inr ⟨k', by simp, hchange⟩
    · exact .inl (by simp [hc])
  | add _ => exact .inl (List.mem_append_left _ hc)

/-- A command was there before, or it is the one that is changed or added. -/
theorem comes (h : Stepped changes adds old new) (hc : c ∈ new) :
    c ∈ old ∨ (∃ before ∈ old, changes before c) ∨ adds c := by
  cases h with
  | @change before after k k' hchange =>
    rw [List.mem_append, List.mem_cons] at hc
    rcases hc with hc | rfl | hc
    · exact .inl (by simp [hc])
    · exact .inr (.inl ⟨k, by simp, hchange⟩)
    · exact .inl (by simp [hc])
  | add hadd =>
    rcases List.mem_append.mp hc with hc | hc
    · exact .inl hc
    · exact .inr (.inr (List.mem_singleton.mp hc ▸ hadd))

/-- There is a command that was changed or added. -/
theorem arrives (h : Stepped changes adds old new) :
    ∃ c' ∈ new, adds c' ∨ ∃ before ∈ old, changes before c' := by
  cases h with
  | @change before after c c' hchange => exact ⟨c', by simp, .inr ⟨c, by simp, hchange⟩⟩
  | @add _ c hadd => exact ⟨c, by simp, .inl hadd⟩

end Stepped

/-- The first command that fits is the one that is changed. -/
theorem changeFirst?_of_find? {fits : Command → Bool} (change : Command → Command)
    {cs : List Command} {c : Command} (h : cs.find? fits = some c) :
    ∃ before after, cs = before ++ c :: after ∧
      changeFirst? fits change cs = some (before ++ change c :: after) := by
  induction cs with
  | nil => cases h
  | cons k rest ih =>
    by_cases hk : fits k = true
    · rw [List.find?_cons_of_pos hk] at h
      cases h
      exact ⟨[], rest, rfl, by rw [changeFirst?, if_pos hk]; rfl⟩
    · rw [List.find?_cons_of_neg hk] at h
      obtain ⟨before, after, rfl, hchange⟩ := ih h
      exact ⟨k :: before, after, rfl, by rw [changeFirst?, if_neg hk, hchange]; rfl⟩

variable (command : Command)

/-- A command is put over a placeholder of its name, or it comes new: over a placeholder, or over
what the first command of its name declares. -/
theorem stepped_place (siblings : List Command) :
    Stepped
      (fun c c' => c.name = command.name ∧ c.isPlaceholder = true ∧ c' = c.overlay command)
      (fun c' => ∃ below, (below = placeholder command.name ∨ below ∈ siblings) ∧
        c' = below.overlay command)
      siblings (place command siblings) := by
  unfold place
  split
  · exact .add ⟨_, .inl rfl, rfl⟩
  next twin hfind =>
  split
  · next hplaceholder =>
    have hname : twin.name = command.name := by simpa using List.find?_some hfind
    obtain ⟨before, after, hsiblings, hchange⟩ :=
      changeFirst?_of_find? (·.overlay command) hfind
    rw [hchange, Option.getD_some, hsiblings]
    exact .change ⟨hname, hplaceholder, rfl⟩
  · exact .add ⟨twin, .inr (List.mem_of_find?_eq_some hfind), rfl⟩

/-- A file further down changes the command of its directory, or a new placeholder. -/
theorem stepped_merge (directory file : String) (rest : List String) (node : Command) :
    Stepped
      (fun c c' => c.standsFor directory = true ∧ c' = merge command (file :: rest) c)
      (fun c' => c' = merge command (file :: rest) (placeholder directory))
      node.subcommands (merge command (directory :: file :: rest) node).subcommands := by
  rw [merge]
  cases hfind : node.subcommands.find? (standsFor directory) with
  | none =>
    have hnone := changeFirst?_eq_none (merge command (file :: rest)) fun c hc =>
      Bool.eq_false_iff.mpr (List.find?_eq_none.mp hfind c hc)
    rw [hnone]
    exact .add rfl
  | some c =>
    obtain ⟨before, after, hsubs, hchange⟩ :=
      changeFirst?_of_find? (merge command (file :: rest)) hfind
    rw [hchange, hsubs]
    exact .change ⟨List.find?_some hfind, rfl⟩

theorem merge_index {file : String} (h : isIndexFile file = true) (node : Command) :
    merge command [file] node = node.overlay command := by
  rw [merge, if_pos h]

theorem merge_plain {file : String} (h : isIndexFile file = false) (node : Command) :
    merge command [file] node = node.withSubcommands (place command node.subcommands) := by
  rw [merge, h]
  rfl

/-- Only the file of a command itself changes what a command declares. -/
theorem declared_merge_inside (directory file : String) (rest : List String) (node : Command) :
    (merge command (directory :: file :: rest) node).declared = node.declared := by
  rw [merge]
  rfl

end CommandFiles.Command
