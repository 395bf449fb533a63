import CommandFiles.Json
import CommandFiles.Text.Quoted

/-!
# Shapes of documents

Reads typed data out of documents, and says where a document has not the needed shape. A record is
an object with the fields as members, or an array with them in their order of declaration.
-/

namespace CommandFiles.Json

/-- Why a document has not the needed shape. -/
inductive Mismatch where
  | wrongType (found : Json) (expected : String)
  | notOneMember
  | missingMember (name : String)
  | unknownVariant (name : String) (known : List String)
  | tooShort (position : Nat) (record : String) (fields : Nat)
  | tooLong (length : Nat)
  | noVariant (choice : String)

/-- A document as messages name it. -/
def found : Json → String
  | .null => "null"
  | .bool b => s!"boolean `{b}`"
  | .int n => s!"integer `{n}`"
  | .float x => s!"floating point `{Number.Layout.data.writeFloat x}`"
  | .string s => "string " ++ Text.quoted s
  | .array _ => "sequence"
  | .object _ => "map"

/-- Names that messages offer. -/
def oneOf (names : List String) : String :=
  match names.map fun n => s!"`{n}`" with
  | [] => "there are no variants"
  | [a] => s!"expected {a}"
  | [a, b] => s!"expected {a} or {b}"
  | all => "expected one of " ++ ", ".intercalate all

/-- The words of a mismatch. -/
def Mismatch.message : Mismatch → String
  | wrongType j expected => s!"invalid type: {found j}, expected {expected}"
  | notOneMember => "invalid value: map, expected map with a single key"
  | missingMember name => s!"missing field `{name}`"
  | unknownVariant name known => s!"unknown variant `{name}`, {oneOf known}"
  | tooShort position record fields =>
    let elements := if fields = 1 then "element" else "elements"
    s!"invalid length {position}, expected struct {record} with {fields} {elements}"
  | tooLong length => s!"invalid length {length}, expected fewer elements in array"
  | noVariant choice => s!"data did not match any variant of untagged enum {choice}"

/-- A reader of documents of one shape. -/
abbrev Shape (α : Type) := Json → Except Mismatch α

namespace Shape

/-- A text. -/
def text : Shape String
  | .string s => .ok s
  | j => .error (.wrongType j "a string")

/-- A path of a file. -/
def path : Shape String
  | .string s => .ok s
  | j => .error (.wrongType j "path string")

/-- A truth value. -/
def bool : Shape Bool
  | .bool b => .ok b
  | j => .error (.wrongType j "a boolean")

/-- A list of items of one shape. -/
def list (item : Shape α) : Shape (List α)
  | .array items => items.mapM item
  | j => .error (.wrongType j "a sequence")

/-- A value that may be absent; null stands for no value. -/
def optional (shape : Shape α) : Shape (Option α)
  | .null => .ok none
  | j => (shape j).map some

/-- Any document. -/
def any : Shape Json := .ok

/-- The value of a known name. -/
def named (known : List String) (ofName : String → Option α) (name : String) :
    Except Mismatch α :=
  match ofName name with
  | some a => .ok a
  | none => .error (.unknownVariant name known)

/-- One of some names: as a text, or as the only member of an object, with the value null. -/
def choice (known : List String) (ofName : String → Option α) : Shape α
  | .string name => named known ofName name
  | .object [(name, value)] => do
    let a ← named known ofName name
    match value with
    | .null => return a
    | j => throw (.wrongType j "unit")
  | .object _ => .error .notOneMember
  | j => .error (.wrongType j "string or map")

/-- The first of some fields that an object lacks. -/
def checkMembers (members : List (String × Json)) (required : List String) :
    Except Mismatch Unit :=
  match required.find? fun name => (members.lookup name).isNone with
  | some name => .error (.missingMember name)
  | none => .ok ()

/-- Checks the length of an array that stands for a record. -/
def checkItems (record : String) (fields required : List String) (length : Nat) :
    Except Mismatch Unit :=
  match required.find? fun name => (fields.take length).all (· != name) with
  | some name => .error (.tooShort (fields.idxOf name) record fields.length)
  | none => if length ≤ fields.length then .ok () else .error (.tooLong length)

/-- A record. Fields are set one after another, in the order they stand in; those with unknown names
are passed over. -/
def record (name : String) (fields required : List String) (start : α)
    (set : String → Json → α → Except Mismatch α) : Shape α
  | .object members => do
    let a ← members.foldlM (fun a m => set m.1 m.2 a) start
    checkMembers members required
    return a
  | .array items => do
    let a ← (fields.zip items).foldlM (fun a m => set m.1 m.2 a) start
    checkItems name fields required items.length
    return a
  | j => .error (.wrongType j ("struct " ++ name))

end Shape

end CommandFiles.Json
