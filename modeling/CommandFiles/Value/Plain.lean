import CommandFiles.Json
import CommandFiles.Value

/-!
# Values as plain data

Values leave the library as JSON. Functions become objects with one member that holds their text;
fields without a value are left out, and items without one become null.
-/

namespace CommandFiles.Value

/-- The name under which the text of a function travels. -/
def functionKey : String := "$function"

/-- The document that stands for a function. -/
def functionJson (source : String) : Json := .object [(functionKey, .string source)]

/-- A number as plain data: whole numbers below `2^53` are integers, infinities and not-a-number
are null. -/
def numberJson (x : Float) : Json :=
  match Number.Binary.ofFloat x with
  | b@(.finite _ _ _) =>
    match b.toInt? with
    | some n => if n.natAbs < Nat.pow 2 53 then .int n else .float x
    | none => .float x
  | _ => .null

mutual

/-- A value as plain data. -/
def toJson : Value → Json
  | .undefined | .null => .null
  | .boolean b => .bool b
  | .number x => numberJson x
  | .string s => .string s
  | .array items => .array (itemsToJson items)
  | .object ⟨fields⟩ => Json.ofMembers (fieldsToJson fields)
  | .function source => functionJson source
  | .helper h => functionJson h.name

/-- Items as plain data. -/
def itemsToJson : List Value → List Json
  | [] => []
  | v :: rest => toJson v :: itemsToJson rest

/-- Fields as plain data; those without a value are left out. -/
def fieldsToJson : List (String × Value) → List (String × Json)
  | [] => []
  | (_, .undefined) :: rest => fieldsToJson rest
  | (k, v) :: rest => (k, toJson v) :: fieldsToJson rest

end

/-- The double nearest to an integer. -/
def intToFloat (n : Int) : Float :=
  if n < 0 then -(Number.ofNat n.natAbs) else Number.ofNat n.natAbs

mutual

/-- The value of a document. -/
def ofJson : Json → Value
  | .null => .null
  | .bool b => .boolean b
  | .int n => .number (intToFloat n)
  | .float x => .number x
  | .string s => .string s
  | .array items => .array (itemsOfJson items)
  | .object members =>
    match members with
    | [(key, .string source)] =>
      if key = functionKey then .function source else .object ⟨[(key, .string source)]⟩
    | _ => .object (Record.ofList (fieldsOfJson members))

/-- The values of the items of a document. -/
def itemsOfJson : List Json → List Value
  | [] => []
  | j :: rest => ofJson j :: itemsOfJson rest

/-- The values of the members of a document. -/
def fieldsOfJson : List (String × Json) → List (String × Value)
  | [] => []
  | (k, j) :: rest => (k, ofJson j) :: fieldsOfJson rest

end

end CommandFiles.Value
