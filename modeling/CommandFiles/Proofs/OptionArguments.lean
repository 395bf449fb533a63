import CommandFiles.Proofs.GlobalFlags
import CommandFiles.Proofs.ObjectMembers
import Mathlib.Data.List.Nodup

/-! # Options and the arguments under their keys

An option is registered under its long name, and its value is put under a key that is spelled
without anything between the words. Several names may have one key: the value of the last such
option that has one is left. No key is the name of the arguments without a flag. -/
namespace CommandFiles

open CommandLine

/-! ## Letters of keys -/

namespace Text

variable {c : Char} {cs : List Char} {runs : List ShiftedRun} {special : List (Nat × List Nat)}

theorem eq_of_ofNat_eq_underscore {n : Nat} (h : Char.ofNat n = '_') : n = 95 := by
  by_cases hv : n.isValidChar
  · rw [Char.ofNat, dif_pos hv] at h
    exact congrArg Char.toNat h
  · rw [Char.ofNat, dif_neg hv] at h
    exact absurd h (by decide)

/-- Whether a run maps nothing to a code point, because all it maps to lies on one side of it. -/
def ShiftedRun.avoids (code : Nat) (r : ShiftedRun) : Bool :=
  (code : Int) < r.first + r.shift || r.last + r.shift < (code : Int)

theorem shiftIn?_ne {target code : Nat} (ht : 0 < target)
    (hruns : runs.all (·.avoids target) = true) : shiftIn? runs code ≠ some target := by
  intro h
  obtain ⟨r, hr, htarget⟩ := Option.map_eq_some_iff.mp h
  have havoids := List.all_eq_true.mp hruns r (List.mem_of_find?_eq_some hr)
  have hcontains := List.find?_some hr
  simp only [ShiftedRun.avoids, Bool.or_eq_true, decide_eq_true_eq] at havoids
  simp only [ShiftedRun.contains, Bool.and_eq_true, decide_eq_true_eq] at hcontains
  omega

/-- A case map that avoids the underscore gives none. -/
theorem underscore_notMem_cased {ascii : Char → Char}
    (hascii : ∀ n < 128, n ≠ 95 → ascii (Char.ofNat n) ≠ '_')
    (hruns : runs.all (·.avoids 95) = true)
    (hspecial : special.all (fun entry => !entry.2.contains 95) = true) (hc : c ≠ '_') :
    '_' ∉ (if c.toNat < 128 then [ascii c]
      else match special.lookup c.toNat with
        | some codes => codes.map Char.ofNat
        | none => [((shiftIn? runs c.toNat).map Char.ofNat).getD c]) := by
  intro hm
  split at hm
  · next hlt =>
    have hne : c.toNat ≠ 95 := fun h => hc (by rw [← Char.ofNat_toNat c, h])
    have := hascii c.toNat hlt hne
    rw [Char.ofNat_toNat] at this
    exact this (List.mem_singleton.mp hm).symm
  split at hm
  · next codes hcodes =>
    obtain ⟨n, hn, he⟩ := List.mem_map.mp hm
    obtain ⟨before, after, rfl, -⟩ := List.lookup_eq_some_iff.mp hcodes
    have := List.all_eq_true.mp hspecial (c.toNat, codes) (by simp)
    simp [eq_of_ofNat_eq_underscore he ▸ hn] at this
  · cases hs : shiftIn? runs c.toNat with
    | none =>
      rw [hs] at hm
      exact hc (List.mem_singleton.mp hm).symm
    | some n =>
      rw [hs] at hm
      have hn := eq_of_ofNat_eq_underscore (List.mem_singleton.mp hm).symm
      exact shiftIn?_ne (by decide) hruns (hn ▸ hs)

theorem underscore_notMem_lowerChar (hc : c ≠ '_') : '_' ∉ lowerChar c :=
  underscore_notMem_cased (by decide) (by decide) (by decide) hc

theorem underscore_notMem_upperChar (hc : c ≠ '_') : '_' ∉ upperChar c :=
  underscore_notMem_cased (by decide) (by decide) (by decide) hc

theorem underscore_notMem_lowerWord (h : '_' ∉ cs) : '_' ∉ lowerWord cs := by
  induction cs with
  | nil => exact h
  | cons c rest ih =>
    rw [List.mem_cons, not_or] at h
    unfold lowerWord
    split
    · exact List.not_mem_nil
    · decide
    · next heq =>
      cases heq
      rw [List.mem_append, not_or]
      exact ⟨underscore_notMem_lowerChar (Ne.symm h.1), ih h.2⟩

theorem underscore_notMem_capitalized (h : '_' ∉ cs) : '_' ∉ capitalized cs := by
  cases cs with
  | nil => exact h
  | cons c rest =>
    rw [List.mem_cons, not_or] at h
    rw [capitalized, List.mem_append, not_or]
    exact ⟨underscore_notMem_upperChar (Ne.symm h.1), underscore_notMem_lowerWord h.2⟩

theorem isLetterOrNumber_of_mem_runsOf {run : List Char} (hrun : run ∈ runsOf cs) (hc : c ∈ run) :
    isLetterOrNumber c = true := by
  induction cs generalizing run with
  | nil =>
    rw [List.mem_singleton.mp hrun] at hc
    cases hc
  | cons first rest ih =>
    unfold runsOf at hrun
    split at hrun
    · next hfirst =>
      split at hrun
      · rw [List.mem_singleton.mp hrun] at hc
        rwa [List.mem_singleton.mp hc]
      · next head more heq =>
        rcases List.mem_cons.mp hrun with rfl | hrun
        · rcases List.mem_cons.mp hc with rfl | hc
          · exact hfirst
          · exact ih (heq ▸ List.mem_cons_self) hc
        · exact ih (heq ▸ List.mem_cons_of_mem _ hrun) hc
    · rcases List.mem_cons.mp hrun with rfl | hrun
      · cases hc
      · exact ih hrun hc

theorem mem_of_mem_cutRun {case : WordCase} {sofar word : List Char}
    (hword : word ∈ cutRun case sofar cs) (hc : c ∈ word) : c ∈ sofar ∨ c ∈ cs := by
  fun_induction cutRun case sofar cs with
  | case1 => cases hword
  | case2 | case3 | case4 | case5 => grind

/-- A word consists of letters and numbers. -/
theorem isLetterOrNumber_of_mem_words {word : List Char} (hword : word ∈ words cs) (hc : c ∈ word) :
    isLetterOrNumber c = true := by
  obtain ⟨run, hrun, hword⟩ := List.mem_flatMap.mp hword
  refine isLetterOrNumber_of_mem_runsOf hrun ((mem_of_mem_cutRun hword hc).resolve_left ?_)
  exact List.not_mem_nil

theorem underscore_notMem_camelCase (name : String) : '_' ∉ (camelCase name).toList := by
  have hwords : ∀ word ∈ words name.toList, '_' ∉ word := fun word hword hc =>
    absurd (isLetterOrNumber_of_mem_words hword hc) (by decide)
  rw [camelCase, String.toList_ofList]
  cases hw : words name.toList with
  | nil => exact List.not_mem_nil
  | cons first rest =>
    rw [hw, List.forall_mem_cons] at hwords
    rw [List.mem_append, not_or]
    refine ⟨underscore_notMem_lowerWord hwords.1, fun hm => ?_⟩
    obtain ⟨word, hword, hm⟩ := List.mem_flatMap.mp hm
    exact underscore_notMem_capitalized (hwords.2 word hword) hm

end Text

/-- No option has the key of the arguments without a flag. -/
theorem Naming.argumentKey_ne_positionalName (long : String) :
    argumentKey long ≠ positionalName := by
  intro h
  have hm := Text.underscore_notMem_camelCase long
  rw [show Text.camelCase long = positionalName from h] at hm
  exact hm (by decide)

/-! ## Members in order -/

/-- Members in order are told apart by what stands under their names. -/
theorem Json.ordered_ext {members others : List (String × Json)} (h : Ordered members)
    (ho : Ordered others) (he : ∀ key, members.lookup key = others.lookup key) :
    members = others := by
  have hmem : ∀ m, m ∈ members ↔ m ∈ others := fun m =>
    ⟨fun hm => Record.mem_of_lookup ((he m.1).symm.trans (Record.lookup_of_mem h.nodup hm)),
      fun hm => Record.mem_of_lookup ((he m.1).trans (Record.lookup_of_mem ho.nodup hm))⟩
  have hperm : members.Perm others :=
    (List.perm_ext_iff_of_nodup (List.Nodup.of_map _ h.nodup)
      (List.Nodup.of_map _ ho.nodup)).mpr hmem
  exact Json.object.inj ((ofMembers_of_ordered h).symm.trans (ofMembers_of_perm hperm ho))

/-! ## Arguments -/

namespace Invocation

variable {l : Level} {os before after : List OptionSpec} {o : OptionSpec} {args : Arguments}
  {key : String}

/-- The value that an option puts under a key, if it has that key and a value. -/
def valueUnder (l : Level) (key : String) (o : OptionSpec) : Option Json :=
  if Naming.reserved.contains o.long then none
  else if Naming.argumentKey o.long = key then optionValue? l o
  else none

/-- The value that options leave under a key: the last one that is put there. -/
def prevailing (l : Level) (os : List OptionSpec) (key : String) : Option Json :=
  os.reverse.findSome? (valueUnder l key)

/-- The value of the arguments without a flag. -/
def positionalValue? (l : Level) : Option Json :=
  match l.values? Naming.positionalName with
  | none | some [] => none
  | some texts => some (.array (texts.map .string))

theorem lookup_addOption :
    (addOption l args o).lookup key = (valueUnder l key o).or (args.lookup key) := by
  unfold addOption valueUnder
  split
  · rfl
  split
  · next v hv =>
    rw [Arguments.insert, Json.lookup_insertMember]
    by_cases hk : Naming.argumentKey o.long = key
    · rw [if_pos hk.symm, if_pos hk, hv]
      rfl
    · rw [if_neg (Ne.symm hk), if_neg hk]
      rfl
  · next hv =>
    rw [hv, ite_self]
    rfl

theorem prevailing_cons :
    prevailing l (o :: os) key = (prevailing l os key).or (valueUnder l key o) := by
  rw [prevailing, List.reverse_cons, List.findSome?_append, List.findSome?_singleton, prevailing]

theorem prevailing_append :
    prevailing l (before ++ after) key =
      (prevailing l after key).or (prevailing l before key) := by
  rw [prevailing, List.reverse_append, List.findSome?_append, prevailing, prevailing]

theorem lookup_foldl_addOption :
    (os.foldl (addOption l) args).lookup key = (prevailing l os key).or (args.lookup key) := by
  induction os generalizing args with
  | nil => rfl
  | cons o rest ih => rw [List.foldl_cons, ih, lookup_addOption, prevailing_cons, Option.or_assoc]

theorem prevailing_eq_none (h : ∀ o ∈ os, valueUnder l key o = none) :
    prevailing l os key = none :=
  List.findSome?_eq_none_iff.mpr fun o ho => h o (List.mem_reverse.mp ho)

theorem prevailing_positionalName (l : Level) (os : List OptionSpec) :
    prevailing l os Naming.positionalName = none :=
  prevailing_eq_none fun o _ => by
    rw [valueUnder, if_neg (Naming.argumentKey_ne_positionalName o.long), ite_self]

theorem addPositional_eq (l : Level) (args : Arguments) :
    addPositional l args =
      (positionalValue? l).elim args (args.insert Naming.positionalName) := by
  unfold addPositional positionalValue?
  rcases l.values? Naming.positionalName with _ | _ | ⟨text, texts⟩ <;> rfl

/-- What stands among the arguments of a command: under the name of the arguments without a flag
these, and under any other key what the options leave there. -/
theorem lookup_argumentsAt (l : Level) (c : Command) (key : String) :
    (argumentsAt l c).lookup key =
      if key = Naming.positionalName then positionalValue? l else prevailing l c.options key := by
  have hoptions : (c.options.foldl (addOption l) []).lookup key = prevailing l c.options key := by
    rw [lookup_foldl_addOption, List.lookup_nil, Option.or_none]
  rw [argumentsAt, addPositional_eq]
  cases positionalValue? l with
  | none =>
    rw [Option.elim_none, hoptions]
    split
    · next hk => rw [hk, prevailing_positionalName]
    · rfl
  | some v => rw [Option.elim_some, Arguments.insert, Json.lookup_insertMember, hoptions]

theorem ordered_argumentsAt (l : Level) (c : Command) : Json.Ordered (argumentsAt l c) := by
  have hoptions : ∀ {os : List OptionSpec} {args : Arguments}, Json.Ordered args →
      Json.Ordered (os.foldl (addOption l) args) := by
    intro os
    induction os with
    | nil => exact id
    | cons o rest ih =>
      intro args h
      refine ih ?_
      unfold addOption
      split
      · exact h
      split
      · exact Json.ordered_insertMember h
      · exact h
  rw [argumentsAt, addPositional_eq]
  cases positionalValue? l with
  | none => exact hoptions .nil
  | some v => exact Json.ordered_insertMember (hoptions .nil)

/-- The arguments of two commands are the same just if their options leave the same under every
key. -/
theorem argumentsAt_eq_iff {c c' : Command} :
    argumentsAt l c' = argumentsAt l c ↔
      ∀ key, prevailing l c'.options key = prevailing l c.options key := by
  constructor
  · intro h key
    by_cases hk : key = Naming.positionalName
    · subst hk
      rw [prevailing_positionalName, prevailing_positionalName]
    · have := congrArg (List.lookup key) h
      rwa [lookup_argumentsAt, lookup_argumentsAt, if_neg hk, if_neg hk] at this
  · intro h
    refine Json.ordered_ext (ordered_argumentsAt l c') (ordered_argumentsAt l c) fun key => ?_
    rw [lookup_argumentsAt, lookup_argumentsAt, h key]

/-- The last of some levels, where the options of the command are given. -/
def lastLevel (levels : List Level) : Level := levels.getLast?.getD ⟨"", []⟩

/-- The arguments of an invocation are those of its command at the last level. -/
theorem arguments_of_match {tree : Command} {fallback : String} {i : Interface}
    {arguments : List String} {levels : List Level}
    (hi : (Interface.ofTree tree fallback).run.value = .ok i)
    (hm : CommandLine.match i arguments = .ok levels) :
    (ofLevels tree fallback levels).arguments =
      argumentsAt (lastLevel levels) (ofLevels tree fallback levels).command := by
  obtain ⟨run, hrun, rfl⟩ := exists_reading hm
  change Reading i.inherited i {} arguments run at hrun
  rw [Interface.inherited_of_ofTree hi] at hrun
  exact (parts_of_ofLevels (length_and_reached hi hrun).1).1

/-! A tree with one command, whose options are what matters. -/

/-- A command with some options below the root. -/
def optionTree (os : List OptionSpec) : Command :=
  .mk { name := "root" }
    [.mk { name := "sub", filePath := some "/c/sub.js", options := some os } []]

/-- The interface of the tree where the options have some parameters. -/
def optionInterface (ps : List Parameter) : Interface :=
  .mk { name := "root", parameters := Interface.globalFlags }
    [.mk { name := "sub", about := some (Command.defaultDescription "sub")
           parameters := ps ++ [Interface.positional] } []]

end Invocation

end CommandFiles
