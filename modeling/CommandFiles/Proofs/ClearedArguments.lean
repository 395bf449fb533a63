import CommandFiles.Proofs.ShieldedArguments
import Mathlib.Tactic.SplitIfs

/-! # What is taken out of the arguments

What is reserved is told without the scan: a flag without a value, a flag with the argument behind
it for its value, and a flag with its value attached. A scan takes out exactly these, in front of
the pair of hyphens, and leaves the others over in their order. So nothing reserved is left, and
taking the reserved flags out of what is left over changes nothing. The second scan may reserve less
than the first, since no scaffold is asked for any more. -/
namespace CommandFiles.CommandLine.Reserved

/-! ## Reserved arguments -/

/-- Whether an argument is a reserved flag without a value. -/
def IsSwitch (configuring : Bool) (argument : String) : Prop :=
  argument ∈ ["--show-arg-name-map", "--write-cache", "--fresh", "--show-deps", configureFlag] ∨
    configuring = true ∧ argument = "--overwrite"

/-- Whether an argument speaks to the program, alone or with the argument behind it. -/
def IsReserved (configuring : Bool) (argument : String) : Prop :=
  IsSwitch configuring argument ∨ ∃ v ∈ Valued.all configuring,
    argument = v.name ∨ ∃ value, argument = v.name ++ "=" ++ value

/-- What is left over of arguments from which only reserved ones are taken out, each flag with its
value, up to a pair of hyphens. -/
inductive Cleared (configuring : Bool) : List String → List String → Prop
  | nil : Cleared configuring [] []
  | shielded (rest : List String) : Cleared configuring (shield :: rest) (shield :: rest)
  | switch {argument : String} {rest left : List String} : IsSwitch configuring argument →
      Cleared configuring rest left → Cleared configuring (argument :: rest) left
  | valued {v : Valued} {value : String} {rest left : List String} : v ∈ Valued.all configuring →
      Cleared configuring rest left → Cleared configuring (v.name :: value :: rest) left
  | attached {v : Valued} {value : String} {rest left : List String} :
      v ∈ Valued.all configuring → Cleared configuring rest left →
      Cleared configuring ((v.name ++ "=" ++ value) :: rest) left
  | kept {argument : String} {rest left : List String} : argument ≠ shield →
      ¬ IsReserved configuring argument → Cleared configuring rest left →
      Cleared configuring (argument :: rest) (argument :: left)

variable {configuring : Bool} {s s' : Split} {argument value : String}
  {arguments rest left : List String}

theorem isReserved_of_not_configuring (h : IsReserved false argument) :
    IsReserved configuring argument := by
  rcases h with (hswitch | ⟨hfalse, -⟩) | ⟨v, hv, hargument⟩
  · exact .inl (.inl hswitch)
  · cases hfalse
  · have hall : v ∈ Valued.all configuring := by
      cases configuring with
      | false => exact hv
      | true => exact List.mem_cons.mpr (.inl (List.mem_singleton.mp hv))
    exact .inr ⟨v, hall, hargument⟩

/-! ## What a scan takes out -/

theorem isSome_setFlag? :
    (s.setFlag? configuring argument).isSome ↔ IsSwitch configuring argument := by
  unfold Split.setFlag? IsSwitch
  split_ifs <;> grind

theorem left_of_setFlag? (h : s.setFlag? configuring argument = some s') : s'.left = s.left := by
  unfold Split.setFlag? at h
  split_ifs at h <;> cases h <;> rfl

theorem left_setValue (s : Split) (value : String) (v : Valued) :
    (s.setValue value v).left = s.left := by
  cases v <;> rfl

theorem attached?_eq_some_iff {flag : String} :
    attached? flag argument = some value ↔ argument = flag ++ "=" ++ value := by
  have hlists : argument = flag ++ "=" ++ value ↔
      argument.toList = flag.toList ++ ['='] ++ value.toList := by
    rw [← String.toList_inj, String.toList_append, String.toList_append]
    rfl
  rw [hlists]
  simp only [attached?]
  split_ifs with hprefix
  · obtain ⟨tail, htail⟩ := List.isPrefixOf_iff_prefix.mp hprefix
    rw [← htail, List.drop_left, List.append_cancel_left_eq, Option.some_inj, String.ext_iff,
      String.toList_ofList]
  · refine iff_of_false nofun fun h => hprefix ?_
    rw [h]
    exact List.isPrefixOf_iff_prefix.mpr (List.prefix_append _ _)

/-- A scan tells what is reserved in three steps. -/
theorem not_isReserved_iff (s : Split) : ¬ IsReserved configuring argument ↔
    s.setFlag? configuring argument = none ∧
    (Valued.all configuring).find? (fun v => v.name = argument) = none ∧
    (Valued.all configuring).findSome? (fun v =>
      (attached? v.name argument).map fun value => (v, value)) = none := by
  have hswitch : s.setFlag? configuring argument = none ↔ ¬ IsSwitch configuring argument := by
    rw [← isSome_setFlag?, Option.not_isSome_iff_eq_none]
  have hattached : ∀ v : Valued, attached? v.name argument = none ↔
      ∀ value, argument ≠ v.name ++ "=" ++ value := by
    intro v
    rw [Option.eq_none_iff_forall_ne_some]
    exact forall_congr' fun value => not_congr attached?_eq_some_iff
  rw [hswitch, List.find?_eq_none, List.findSome?_eq_none_iff]
  simp only [Option.map_eq_none_iff, hattached, decide_eq_true_eq, IsReserved]
  constructor
  · intro h
    exact ⟨fun hs => h (.inl hs), fun v hv hname => h (.inr ⟨v, hv, .inl hname.symm⟩),
      fun v hv value hvalue => h (.inr ⟨v, hv, .inr ⟨value, hvalue⟩⟩)⟩
  · rintro ⟨hs, hnames, hvalues⟩ (h | ⟨v, hv, hname | ⟨value, hvalue⟩⟩)
    · exact hs h
    · exact hnames v hv hname.symm
    · exact hvalues v hv value hvalue

theorem splitFrom_kept (hshield : argument ≠ shield) (hkept : ¬ IsReserved configuring argument)
    (s : Split) (rest : List String) :
    splitFrom configuring s (argument :: rest) =
      splitFrom configuring { s with left := argument :: s.left } rest := by
  obtain ⟨hflag, hname, hvalue⟩ := (not_isReserved_iff s).mp hkept
  rw [splitFrom, if_neg hshield, hflag, hname, hvalue]

/-- **A scan takes the reserved arguments out and leaves the others over in their order.** -/
theorem cleared_of_splitFrom (h : splitFrom configuring s arguments = .ok s') :
    ∃ left, s'.left.reverse = s.left.reverse ++ left ∧ Cleared configuring arguments left := by
  -- Along the recursion of the scan: what it adds to the arguments that are left over so far.
  fun_induction splitFrom configuring s arguments with
  | case1 s =>
    cases h
    exact ⟨[], (List.append_nil _).symm, .nil⟩
  | case2 s rest =>
    cases h
    exact ⟨shield :: rest, by simp, .shielded rest⟩
  | case3 s argument rest hshield next hflag ih =>
    obtain ⟨left, hleft, hcleared⟩ := ih h
    rw [left_of_setFlag? hflag] at hleft
    have hswitch := isSome_setFlag?.mp (Option.isSome_of_eq_some hflag)
    exact ⟨left, hleft, .switch hswitch hcleared⟩
  | case4 => cases h
  | case5 s argument hshield hflag v hfind value rest ih =>
    obtain ⟨left, hleft, hcleared⟩ := ih h
    rw [left_setValue] at hleft
    obtain ⟨hv, rfl⟩ := mem_all_of_find? hfind
    exact ⟨left, hleft, .valued hv hcleared⟩
  | case6 s argument rest hshield hflag hfind v value hvalue ih =>
    obtain ⟨left, hleft, hcleared⟩ := ih h
    rw [left_setValue] at hleft
    obtain ⟨w, hw, hfound⟩ := List.exists_of_findSome?_eq_some hvalue
    obtain ⟨_, hattached, ⟨⟩⟩ := Option.map_eq_some_iff.mp hfound
    obtain rfl := attached?_eq_some_iff.mp hattached
    exact ⟨left, hleft, .attached hw hcleared⟩
  | case7 s argument rest hshield hflag hfind hvalue ih =>
    obtain ⟨left, hleft, hcleared⟩ := ih h
    rw [List.reverse_cons, List.append_assoc] at hleft
    have hkept := (not_isReserved_iff s).mpr ⟨hflag, hfind, hvalue⟩
    exact ⟨argument :: left, hleft, .kept hshield hkept hcleared⟩

/-! ## What is left over -/

/-- What is left over has no reserved flag in front of the pair of hyphens. -/
theorem Cleared.splitFrom_left (h : Cleared configuring arguments left) (s : Split) :
    splitFrom false s left = .ok { s with left := left.reverse ++ s.left } := by
  induction h generalizing s with
  | nil => rfl
  | shielded rest => rw [splitFrom_shield]; simp
  | switch _ _ ih => exact ih s
  | valued _ _ ih => exact ih s
  | attached _ _ ih => exact ih s
  | kept hshield hkept _ ih =>
    rw [splitFrom_kept hshield (fun h => hkept (isReserved_of_not_configuring h)), ih]
    simp

/-- What is left over asks for no scaffold. -/
theorem Cleared.not_isConfiguring (h : Cleared configuring arguments left) :
    isConfiguring left = false := by
  induction h with
  | nil => rfl
  | shielded rest => simp [isConfiguring]
  | switch _ _ ih => exact ih
  | valued _ _ ih => exact ih
  | attached _ _ ih => exact ih
  | @kept argument rest left hshield hkept _ ih =>
    have hne : argument ≠ configureFlag := by
      rintro rfl
      exact hkept (.inl (.inl (by decide)))
    have htail : configureFlag ∉ left.takeWhile (· ≠ shield) := by simpa [isConfiguring] using ih
    rw [isConfiguring, List.takeWhile_cons_of_pos (by simpa using hshield)]
    simpa [hne.symm] using htail

theorem Cleared.sublist (h : Cleared configuring arguments left) : left.Sublist arguments := by
  induction h with
  | nil => exact .slnil
  | shielded rest => exact .refl _
  | switch _ _ ih => exact ih.cons _
  | valued _ _ ih => exact (ih.cons _).cons _
  | attached _ _ ih => exact ih.cons _
  | kept _ _ _ ih => exact ih.cons_cons _

/-- **The reserved flags are taken out completely, and nothing else is**: what is left over keeps
its order, what was taken out is reserved, and another split of what is left over finds no flag and
takes nothing out. -/
theorem split_clears {flags : Reserved} (h : split arguments = .ok (flags, left)) :
    left.Sublist arguments ∧ split left = .ok ({}, left) ∧
      Cleared (isConfiguring arguments) arguments left := by
  rw [split_eq] at h
  cases hscan : splitFrom (isConfiguring arguments) {} arguments with
  | error e =>
    rw [hscan] at h
    cases h
  | ok s =>
    rw [hscan] at h
    cases h
    obtain ⟨left, hleft, hcleared⟩ := cleared_of_splitFrom hscan
    obtain rfl : s.left.reverse = left := hleft
    refine ⟨hcleared.sublist, ?_, hcleared⟩
    rw [split_eq, hcleared.not_isConfiguring, hcleared.splitFrom_left]
    simp [Except.map, Split.result]

theorem split_clears_of_overwrite :
    split ["--configure", "--root", "cli", "deploy", "--overwrite", "--", "--fresh"] =
      .ok ({ configure := some { root := some "cli", overwrite := true } },
        ["deploy", "--", "--fresh"]) ∧
    List.Sublist ["deploy", "--", "--fresh"]
      ["--configure", "--root", "cli", "deploy", "--overwrite", "--", "--fresh"] ∧
    split ["deploy", "--", "--fresh"] = .ok ({}, ["deploy", "--", "--fresh"]) ∧
    Cleared true ["--configure", "--root", "cli", "deploy", "--overwrite", "--", "--fresh"]
      ["deploy", "--", "--fresh"] := by
  have hsplit : split ["--configure", "--root", "cli", "deploy", "--overwrite", "--", "--fresh"] =
      .ok ({ configure := some { root := some "cli", overwrite := true } },
        ["deploy", "--", "--fresh"]) := by rfl
  exact ⟨hsplit, split_clears hsplit⟩

end CommandFiles.CommandLine.Reserved
