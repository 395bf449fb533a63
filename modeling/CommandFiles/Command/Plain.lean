import CommandFiles.Command
import CommandFiles.Json.Shape
import CommandFiles.Value.Plain

/-!
# Commands as plain data

Commands are read out of what option literals come to, and written to caches and reports. Absent
parts are left out.
-/

namespace CommandFiles

open Json (Mismatch Shape)

/-! ## The parts of a command -/

/-- The kind of an option with a given tag. -/
def OptionKind.ofTag? (tag : String) : Option OptionKind :=
  OptionKind.all.find? fun k => k.tag = tag

/-- Reads a kind of option. -/
def OptionKind.shape : Shape OptionKind :=
  Shape.choice (OptionKind.all.map OptionKind.tag) OptionKind.ofTag?

/-- The runtime a name stands for. Production may be named by its flag. -/
def Runtime.ofName? (name : String) : Option Runtime :=
  Runtime.all.find? fun r => r.name = name || r.flag = name

/-- Reads a runtime. -/
def Runtime.shape : Shape Runtime :=
  Shape.choice ["local", "develop", "staging", "prod", "production"] Runtime.ofName?

/-- Reads the name of an option. -/
def OptionName.shape : Shape OptionName
  | .string name => .ok (long name)
  | .array [.string short, .string name] => .ok (pair short name)
  | _ => .error (.noVariant "OptionName")

/-- Writes the name of an option. -/
def OptionName.toJson : OptionName → Json
  | long name => .string name
  | pair short name => .array [.string short, .string name]

/-- Sets a field of an option. -/
def OptionSpec.setField (key : String) (j : Json) (o : OptionSpec) :
    Except Mismatch OptionSpec :=
  match key with
  | "name" => do return { o with name := ← OptionName.shape j }
  | "description" => do return { o with description := ← Shape.optional Shape.text j }
  | "defaultValue" => do return { o with defaultValue := ← Shape.optional Shape.any j }
  | "required" => do return { o with required := ← Shape.bool j }
  | "type" => do return { o with kind := ← OptionKind.shape j }
  | "choices" => do return { o with choices := ← Shape.optional (Shape.list Shape.text) j }
  | _ => .ok o

/-- Reads an option. -/
def OptionSpec.shape : Shape OptionSpec :=
  Shape.record "OptionSpec"
    ["name", "description", "defaultValue", "required", "type", "choices"] ["name", "type"]
    { name := .long "", kind := .boolean } setField

/-- Writes an option. -/
def OptionSpec.toJson (o : OptionSpec) : Json :=
  Json.ofMembers <|
    [("name", o.name.toJson), ("type", .string o.kind.tag)] ++
    (o.description.map fun d => ("description", .string d)).toList ++
    (o.defaultValue.map fun v => ("defaultValue", v)).toList ++
    (if o.required then [("required", .bool true)] else []) ++
    (o.choices.map fun cs => ("choices", .array (cs.map .string))).toList

/-- Reads a hook. -/
def Hook.shape : Shape Hook :=
  Shape.record "Hook" [Value.functionKey] [Value.functionKey] ⟨""⟩ fun key j hook =>
    if key = Value.functionKey then do return ⟨← Shape.text j⟩ else .ok hook

/-- Writes a hook. -/
def Hook.toJson (h : Hook) : Json := Value.functionJson h.source

/-- Reads a demand for a runtime. -/
def RuntimeDemand.shape : Shape RuntimeDemand :=
  Shape.record "RuntimeRequirement" ["default"] [] {} fun key j demand =>
    if key = "default" then do return ⟨← Shape.optional Runtime.shape j⟩ else .ok demand

/-- Writes a demand for a runtime. -/
def RuntimeDemand.toJson (d : RuntimeDemand) : Json :=
  Json.ofMembers (d.default.map fun r => ("default", .string r.name)).toList

/-! ## Reading commands -/

/-- Sets a field of a declaration. -/
def Declaration.setField (key : String) (j : Json) (d : Declaration) :
    Except Mismatch Declaration :=
  match key with
  | "name" => do return { d with name := ← Shape.text j }
  | "description" => do return { d with description := ← Shape.optional Shape.text j }
  | "alias" => do return { d with secondName := ← Shape.optional Shape.text j }
  | "filePath" => do return { d with filePath := ← Shape.optional Shape.path j }
  | "options" => do
    return { d with options := ← Shape.optional (Shape.list OptionSpec.shape) j }
  | "requiresRunTime" => do
    return { d with runtimeDemand := ← Shape.optional RuntimeDemand.shape j }
  | "beforeRun" => do return { d with beforeRun := ← Shape.optional Hook.shape j }
  | "validate" => do return { d with validate := ← Shape.optional Hook.shape j }
  | "showHelpWhenNoArgs" => do return { d with showsHelp := ← Shape.optional Shape.bool j }
  | "deps" => do
    return { d with dependencies := ← Shape.optional (Shape.list Shape.text) j }
  | _ => .ok d

namespace Command

/-- The name of a command as a record. -/
def recordName : String := "CommandDescriptor"

/-- The field that holds the commands below a command. -/
def subcommandsField : String := "subcommands"

/-- The fields of a command, in their order of declaration. -/
def fieldNames : List String :=
  ["name", "description", "alias", "filePath", "options", subcommandsField, "requiresRunTime",
   "beforeRun", "validate", "showHelpWhenNoArgs", "deps"]

/-- The fields that every command needs. -/
def requiredFields : List String := ["name"]

mutual

/-- Reads a command. -/
def ofJson : Json → Except Mismatch Command
  | .object members => do
    let c ← ofMembers members empty
    Shape.checkMembers members requiredFields
    return c
  | .array items => do
    let c ← ofItems fieldNames items empty
    Shape.checkItems recordName fieldNames requiredFields items.length
    return c
  | j => .error (.wrongType j ("struct " ++ recordName))

/-- Reads the fields of a command out of members. -/
def ofMembers : List (String × Json) → Command → Except Mismatch Command
  | [], c => .ok c
  | (key, j) :: rest, c => do
    let c ← setField key j c
    ofMembers rest c

/-- Reads the fields of a command out of items. -/
def ofItems : List String → List Json → Command → Except Mismatch Command
  | key :: keys, j :: rest, c => do
    let c ← setField key j c
    ofItems keys rest c
  | _, _, c => .ok c

/-- Sets a field of a command. -/
def setField (key : String) (j : Json) : Command → Except Mismatch Command
  | mk d subs =>
    if key = subcommandsField then
      match j with
      | .array items => do return mk d (← ofJsonList items)
      | j => .error (.wrongType j "a sequence")
    else do return mk (← d.setField key j) subs

/-- Reads several commands. -/
def ofJsonList : List Json → Except Mismatch (List Command)
  | [] => .ok []
  | j :: rest => do
    let c ← ofJson j
    return c :: (← ofJsonList rest)

end

/-! ## Writing commands -/

/-- What a command declares, as the members of an object. -/
def declaredMembers (d : Declaration) : List (String × Json) :=
  ("name", .string d.name) ::
  (d.description.map fun s => ("description", Json.string s)).toList ++
  (d.secondName.map fun s => ("alias", Json.string s)).toList ++
  (d.filePath.map fun s => ("filePath", Json.string s)).toList ++
  (d.options.map fun os => ("options", Json.array (os.map OptionSpec.toJson))).toList ++
  (d.runtimeDemand.map fun r => ("requiresRunTime", r.toJson)).toList ++
  (d.beforeRun.map fun h => ("beforeRun", h.toJson)).toList ++
  (d.validate.map fun h => ("validate", h.toJson)).toList ++
  (d.showsHelp.map fun b => ("showHelpWhenNoArgs", Json.bool b)).toList ++
  (d.dependencies.map fun ds => ("deps", Json.array (ds.map .string))).toList

mutual

/-- Writes a command. -/
def toJson : Command → Json
  | mk d subs =>
    Json.ofMembers ((subcommandsField, .array (toJsonList subs)) :: declaredMembers d)

/-- Writes several commands. -/
def toJsonList : List Command → List Json
  | [] => []
  | c :: rest => toJson c :: toJsonList rest

end

end Command

end CommandFiles
