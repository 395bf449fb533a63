import CommandFiles.CommandLine.Reserved

/-! # What a pair of hyphens shields

Behind a bare pair of hyphens no flag is reserved. The arguments before it are scanned as if they
stood alone: what is scanned depends on an argument and what was scanned before it, and only a flag
that takes a value looks further. So if the last argument before the pair is such a flag without its
value, the pair is taken for the value and shields nothing; otherwise everything behind the pair is
left over as it stands. -/
namespace CommandFiles.CommandLine.Reserved

variable {configuring : Bool} {s s' : Split} {argument : String} {before after : List String}

/-! ## Scans -/

/-- Whether scanning some arguments leads from what was found before them to what is found behind
them, whatever follows. -/
def Scans (configuring : Bool) (s : Split) (before : List String) (s' : Split) : Prop :=
  ∀ after, splitFrom configuring s (before ++ after) = splitFrom configuring s' after

theorem Scans.nil (s : Split) : Scans configuring s [] s := fun _ => rfl

theorem Scans.cons {next : Split} (h : Scans configuring s [argument] next)
    (hrest : Scans configuring next before s') :
    Scans configuring s (argument :: before) s' := by
  intro after
  have hfirst := h (before ++ after)
  have hmore := hrest after
  exact hfirst.trans hmore

theorem Scans.splitFrom_eq (h : Scans configuring s before s') :
    splitFrom configuring s before = .ok s' := by
  have hall := h []
  rw [List.append_nil] at hall
  rw [hall, splitFrom]

theorem mem_all_of_find? {v : Valued}
    (h : (Valued.all configuring).find? (fun v => v.name = argument) = some v) :
    v ∈ Valued.all configuring ∧ v.name = argument :=
  ⟨List.mem_of_find?_eq_some h, by simpa using List.find?_some h⟩

theorem setFlag?_name (v : Valued) (s : Split) (configuring : Bool) :
    s.setFlag? configuring v.name = none := by
  cases v <;> simp [Valued.name, Split.setFlag?, configureFlag]

theorem find?_name {v : Valued} (h : v ∈ Valued.all configuring) :
    (Valued.all configuring).find? (fun w => w.name = v.name) = some v := by
  cases configuring with
  | true => cases v <;> rfl
  | false =>
    obtain rfl : v = .printOpts := by simpa [Valued.all] using h
    rfl

/-- A flag takes the next argument for its value, whatever that is. -/
theorem splitFrom_value {v : Valued} (h : v ∈ Valued.all configuring) (s : Split) (value : String)
    (after : List String) :
    splitFrom configuring s (v.name :: value :: after) =
      splitFrom configuring (s.setValue value v) after := by
  have hshield : v.name ≠ shield := by cases v <;> decide
  rw [splitFrom, if_neg hshield, setFlag?_name, find?_name h]

theorem splitFrom_missing {v : Valued} (h : v ∈ Valued.all configuring) (s : Split) :
    splitFrom configuring s [v.name] = .error ⟨v.name⟩ := by
  have hshield : v.name ≠ shield := by cases v <;> decide
  rw [splitFrom, if_neg hshield, setFlag?_name, find?_name h]

/-- What becomes of an argument that is not the pair of hyphens: it is scanned by itself, or it is a
flag that takes a value. -/
theorem scans_or_valued (configuring : Bool) (h : argument ≠ shield) (s : Split) :
    (∃ s', Scans configuring s [argument] s') ∨
      ∃ v ∈ Valued.all configuring, v.name = argument := by
  cases hflag : s.setFlag? configuring argument with
  | some next =>
    refine .inl ⟨next, fun after => ?_⟩
    rw [List.singleton_append, splitFrom, if_neg h, hflag]
  | none =>
    cases hfind : (Valued.all configuring).find? (fun v => v.name = argument) with
    | some v => exact .inr ⟨v, mem_all_of_find? hfind⟩
    | none =>
      left
      cases hvalue : (Valued.all configuring).findSome? fun v =>
          (attached? v.name argument).map fun value => (v, value) with
      | some found =>
        refine ⟨s.setValue found.2 found.1, fun after => ?_⟩
        rw [List.singleton_append, splitFrom, if_neg h, hflag, hfind, hvalue]
      | none =>
        refine ⟨{ s with left := argument :: s.left }, fun after => ?_⟩
        rw [List.singleton_append, splitFrom, if_neg h, hflag, hfind, hvalue]

/-- Arguments without the pair of hyphens are scanned to their end, unless the last one is a flag
that takes a value: then the others are scanned. -/
theorem scans_or_awaits {configuring : Bool} : ∀ {before : List String}, shield ∉ before → ∀ s : Split,
    (∃ s', Scans configuring s before s') ∨
      ∃ front v s', v ∈ Valued.all configuring ∧ before = front ++ [v.name] ∧
        Scans configuring s front s'
  | [], _, s => .inl ⟨s, Scans.nil s⟩
  | argument :: rest, h, s => by
    obtain ⟨hargument, hrest⟩ : shield ≠ argument ∧ shield ∉ rest := by simpa using h
    rcases scans_or_valued configuring hargument.symm s with
      ⟨next, hnext⟩ | ⟨v, hv, rfl⟩
    · rcases scans_or_awaits hrest next with
        ⟨s', hs'⟩ | ⟨front, v, s', hv, rfl, hs'⟩
      · exact .inl ⟨s', hnext.cons hs'⟩
      · exact .inr ⟨argument :: front, v, s', hv, rfl, hnext.cons hs'⟩
    · -- The flag takes the argument behind it too, if there is one.
      cases rest with
      | nil => exact .inr ⟨[], v, s, hv, rfl, Scans.nil s⟩
      | cons value rest =>
        have hbehind : shield ∉ rest := fun hm => hrest (List.mem_cons_of_mem value hm)
        have hvalue : ∀ {more s'}, Scans configuring (s.setValue value v) more s' →
            Scans configuring s (v.name :: value :: more) s' := fun hmore after =>
          (splitFrom_value hv s value _).trans (hmore after)
        rcases scans_or_awaits hbehind (s.setValue value v) with
          ⟨s', hs'⟩ | ⟨front, w, s', hw, rfl, hs'⟩
        · exact .inl ⟨s', hvalue hs'⟩
        · exact .inr ⟨v.name :: value :: front, w, s', hw, rfl, hvalue hs'⟩

/-! ## The whole split -/

/-- What a split comes to once all arguments have been scanned. -/
def Split.result (configuring : Bool) (s : Split) : Reserved × List String :=
  ({ s.flags with configure := if configuring then some s.request else none }, s.left.reverse)

theorem split_eq (arguments : List String) :
    split arguments = (splitFrom (isConfiguring arguments) {} arguments).map
      (Split.result (isConfiguring arguments)) := by
  unfold split
  dsimp only
  cases splitFrom (isConfiguring arguments) {} arguments <;> rfl

theorem isConfiguring_append_shield (h : shield ∉ before) (after : List String) :
    isConfiguring (before ++ shield :: after) = isConfiguring before := by
  have hbefore : ∀ a ∈ before, (decide (a ≠ shield)) = true := by
    intro a ha
    rw [decide_eq_true_eq]
    rintro rfl
    exact h ha
  have hwhole : (before ++ shield :: after).takeWhile (· ≠ shield) = before := by
    rw [List.takeWhile_append_of_pos hbefore, List.takeWhile_cons_of_neg (by simp), List.append_nil]
  have halone : before.takeWhile (· ≠ shield) = before := by
    rw [← List.append_nil before, List.takeWhile_append_of_pos hbefore, List.takeWhile_nil]
  rw [isConfiguring, isConfiguring, hwhole, halone]

/-- **What stands behind a bare pair of hyphens is left over as it stands, and what is reserved is
reserved by the arguments before it alone.** The only exception is a flag directly before the pair
that takes a value: alone it lacks its value, and with the pair behind it the pair is the value, so
that the arguments behind are scanned as any others. -/
theorem split_shield (h : shield ∉ before) (after : List String) :
    (∃ flags left, split before = .ok (flags, left) ∧
      split (before ++ shield :: after) = .ok (flags, left ++ shield :: after)) ∨
    ∃ front v s, v ∈ Valued.all (isConfiguring before) ∧ before = front ++ [v.name] ∧
      split before = .error ⟨v.name⟩ ∧ Scans (isConfiguring before) {} front s ∧
      split (before ++ shield :: after) =
        (splitFrom (isConfiguring before) (s.setValue shield v) after).map
          (Split.result (isConfiguring before)) := by
  rw [split_eq, split_eq, isConfiguring_append_shield h]
  rcases scans_or_awaits h {} with
    ⟨s, hs⟩ | ⟨front, v, s, hv, hbefore, hs⟩
  · refine .inl ⟨_, s.left.reverse, congrArg (Except.map _) hs.splitFrom_eq, ?_⟩
    rw [hs, splitFrom_shield]
    simp [Except.map, Split.result]
  · refine .inr ⟨front, v, s, hv, hbefore, ?_, hs, ?_⟩
    · have halone := hs [v.name]
      rw [← hbefore] at halone
      rw [halone, splitFrom_missing hv]
      rfl
    · have hwhole := hs (v.name :: shield :: after)
      rw [splitFrom_value hv, List.append_cons, ← hbefore] at hwhole
      rw [hwhole]

/-- The root of a scaffold keeps its value, and a flag behind the pair stays an argument. -/
theorem split_shield_of_scaffold :
    shield ∉ ["--configure", "--root", "cli"] ∧
      ((∃ flags left, split ["--configure", "--root", "cli"] = .ok (flags, left) ∧
        split ["--configure", "--root", "cli", "--", "--fresh"] =
          .ok (flags, left ++ shield :: ["--fresh"])) ∨
      ∃ front v s, v ∈ Valued.all (isConfiguring ["--configure", "--root", "cli"]) ∧
        ["--configure", "--root", "cli"] = front ++ [v.name] ∧
        split ["--configure", "--root", "cli"] = .error ⟨v.name⟩ ∧
        Scans (isConfiguring ["--configure", "--root", "cli"]) {} front s ∧
        split ["--configure", "--root", "cli", "--", "--fresh"] =
          (splitFrom (isConfiguring ["--configure", "--root", "cli"]) (s.setValue shield v)
            ["--fresh"]).map (Split.result (isConfiguring ["--configure", "--root", "cli"]))) :=
  have h : shield ∉ ["--configure", "--root", "cli"] := by decide
  ⟨h, split_shield h ["--fresh"]⟩

/-- A flag directly before the pair takes it for its value, and then a flag behind the pair is
reserved. -/
theorem shield_taken_for_value :
    ¬ ∀ (before after : List String) (flags : Reserved) (left : List String), shield ∉ before →
      split (before ++ shield :: after) = .ok (flags, left) →
      (∃ front, left = front ++ shield :: after) ∧ ∃ alone, split before = .ok (flags, alone) := by
  intro h
  have hsplit : split (["--print-opts"] ++ shield :: ["--fresh"]) =
      .ok ({ fresh := true, printOpts := some shield }, []) := by rfl
  obtain ⟨⟨front, hfront⟩, -⟩ := h ["--print-opts"] ["--fresh"] _ _ (by decide) hsplit
  simp at hfront

end CommandFiles.CommandLine.Reserved
