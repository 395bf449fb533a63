import CommandFiles.Proofs.ReadCommands

/-! # Default values in order

The default values of options are the only documents that a command holds as they are. They are read
out of what option literals come to, where the members of all objects are in order and null is read
as nothing, so the tree that is discovered has no other ones, and what is written of it is in order
as well. -/
namespace CommandFiles

open Json

/-! ## Written documents -/

theorem forall_optional {β : Type} {P : String × Json → Prop} {key : String} {o : Option β}
    {f : β → Json} (h : ∀ x, o = some x → P (key, f x)) :
    ∀ m ∈ (o.map fun x => (key, f x)).toList, P m := by
  cases o with
  | none => nofun
  | some x =>
    rintro m hm
    rw [List.mem_singleton.mp hm]
    exact h x rfl

theorem inOrder_texts (texts : List String) : InOrder (.array (texts.map .string)) :=
  .array fun j hj => by
    obtain ⟨s, -, rfl⟩ := List.mem_map.mp hj
    exact .string s

theorem OptionName.inOrder_toJson (name : OptionName) : InOrder name.toJson := by
  cases name with
  | long name => exact .string name
  | pair short name => exact inOrder_texts [short, name]

theorem RuntimeDemand.inOrder_toJson (demand : RuntimeDemand) : InOrder demand.toJson :=
  inOrder_ofMembers (forall_optional fun r _ => .string r.name)

/-- What is written of an option is in order if its default value is. -/
theorem OptionSpec.inOrder_toJson {o : OptionSpec}
    (h : ∀ j, o.defaultValue = some j → j.InOrder) : InOrder o.toJson := by
  refine inOrder_ofMembers ?_
  simp only [List.forall_mem_append]
  refine ⟨⟨⟨⟨?_, forall_optional fun d _ => .string d⟩, forall_optional h⟩, ?_⟩,
    forall_optional fun cs _ => inOrder_texts cs⟩
  · simp [OptionName.inOrder_toJson, InOrder.string]
  · cases o.required <;> simp [InOrder.bool]

namespace Command

theorem inOrder_declaredMembers {d : Declaration} (hd : d.DefaultsHave InOrder) :
    ∀ m ∈ declaredMembers d, InOrder m.2 := by
  unfold declaredMembers
  simp only [List.cons_append, List.forall_mem_cons, List.forall_mem_append]
  refine ⟨.string d.name, ⟨⟨⟨⟨⟨⟨⟨⟨?_, ?_⟩, ?_⟩, ?_⟩, ?_⟩, ?_⟩, ?_⟩, ?_⟩, ?_⟩⟩
  · exact forall_optional fun s _ => .string s
  · exact forall_optional fun s _ => .string s
  · exact forall_optional fun s _ => .string s
  · refine forall_optional fun os hos => .array fun j hj => ?_
    obtain ⟨o, ho, rfl⟩ := List.mem_map.mp hj
    exact OptionSpec.inOrder_toJson fun j h => (hd o (by rwa [hos]) j h).2
  · exact forall_optional fun demand _ => demand.inOrder_toJson
  · exact forall_optional fun hook _ => Value.inOrder_functionJson hook.source
  · exact forall_optional fun hook _ => Value.inOrder_functionJson hook.source
  · exact forall_optional fun b _ => .bool b
  · exact forall_optional fun ds _ => inOrder_texts ds

mutual

/-- **What is written of a command is in order** if its default values are. -/
theorem inOrder_toJson : ∀ c : Command, c.Everywhere (Declaration.DefaultsHave InOrder) →
    InOrder c.toJson
  | mk d subs, h => by
    rw [toJson]
    refine inOrder_ofMembers (List.forall_mem_cons.mpr ⟨?_, ?_⟩)
    · exact .array (inOrder_toJsonList subs (everywhere_iff.mp h).2)
    · exact inOrder_declaredMembers (everywhere_iff.mp h).1

theorem inOrder_toJsonList : ∀ cs : List Command,
    (∀ c ∈ cs, c.Everywhere (Declaration.DefaultsHave InOrder)) → ∀ j ∈ toJsonList cs, InOrder j
  | [], _, _, hj => absurd hj List.not_mem_nil
  | c :: rest, h, j, hj => by
    rcases List.mem_cons.mp hj with rfl | hj
    · exact inOrder_toJson c (h c List.mem_cons_self)
    · exact inOrder_toJsonList rest (fun k hk => h k (List.mem_cons_of_mem c hk)) j hj

end

end Command

/-! ## Discovered trees -/

namespace Discovery

variable {fs : FileSystem} {c : Context} {path : String} {tree command : Command}

theorem Holds.defaultsInOrder (h : Holds fs c path command) :
    command.Everywhere (Declaration.DefaultsHave InOrder) := by
  obtain ⟨fields, found, read, -, -, hread, rfl⟩ := exists_of_holds h
  have htidy := Command.everywhere_of_ofJson InOrder.hereditary _ read
    (Value.inOrder_toJson (.object fields)) hread
  obtain ⟨d, subs⟩ := read
  obtain ⟨hown, hsubs⟩ := Command.everywhere_iff.mp htidy
  exact Command.everywhere_iff.mpr ⟨hown, hsubs⟩

/-- **The default values in a discovered tree are in order.** -/
theorem defaultsInOrder_of_discover (h : (discover fs c).run.value = .ok tree) :
    tree.Everywhere (Declaration.DefaultsHave InOrder) := by
  obtain ⟨files, -, hassembled⟩ := discover_eq_ok.mp h
  refine hassembled.everywhere Declaration.defaultsHave_name
    fun path _ command hholds => ⟨fun below hbelow o ho => ?_, ?_⟩
  · have hown := (Command.everywhere_iff.mp hholds.defaultsInOrder).1
    cases hos : command.declared.options with
    | none =>
      rw [Command.overlayDeclared, hos] at ho
      exact hbelow o ho
    | some os =>
      rw [Command.overlayDeclared, hos] at ho
      exact hown o (by rw [hos]; exact ho)
  · exact (Command.everywhere_iff.mp hholds.defaultsInOrder).2

end Discovery

end CommandFiles
