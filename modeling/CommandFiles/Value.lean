import CommandFiles.Number.Shortest
import CommandFiles.Record
import CommandFiles.Text.LetterCase

/-!
# Values of option literals

What an option literal comes to. Functions are carried as their text; the helpers that a literal may
call while it is read are values of their own.
-/

namespace CommandFiles

/-- A function that a literal may call while it is read. -/
inductive Helper where
  | join | resolve | dirname | basename | extname | string
  deriving DecidableEq, Repr, Inhabited

/-- The name of a helper as command files write it. -/
def Helper.name : Helper → String
  | join => "_z.join"
  | resolve => "_z.resolve"
  | dirname => "_z.dirname"
  | basename => "_z.basename"
  | extname => "_z.extname"
  | string => "String"

/-- A value. -/
inductive Value where
  | undefined
  | null
  | boolean (value : Bool)
  | number (value : Float)
  | string (value : String)
  | array (items : List Value)
  | object (fields : Record Value)
  | function (source : String)
  | helper (helper : Helper)

instance : Inhabited Value := ⟨.undefined⟩

/-- Writes a number as literals and messages write it: whole numbers below `10^21` exactly, other
numbers with the fewest digits that read back, and never with an exponent. Minus zero is zero. -/
def numberText (x : Float) : String :=
  match Number.Binary.ofFloat x with
  | .notANumber => "NaN"
  | .infinite negative => if negative then "-Infinity" else "Infinity"
  | b@(.finite _ _ _) =>
    match b.toInt? with
    | some n => if n.natAbs < Nat.pow 10 21 then toString n else Number.Layout.plain.writeFloat x
    | none => Number.Layout.plain.writeFloat x

namespace Value

/-- Whether a value stands for nothing. -/
def isNullish : Value → Bool
  | undefined | null => true
  | _ => false

/-- Whether a value counts as true in a condition. -/
def isTruthy : Value → Bool
  | undefined | null => false
  | boolean b => b
  | number x => x != 0.0 && !x.isNaN
  | string s => !s.isEmpty
  | _ => true

/-- The name of the type of a value, as messages give it. -/
def typeName : Value → String
  | undefined => "undefined"
  | null => "null"
  | boolean _ => "boolean"
  | number _ => "number"
  | string _ => "string"
  | array _ => "array"
  | object _ => "object"
  | function _ | helper _ => "function"

/-- The type of a value, as the literal itself can ask for it. -/
def typeOf : Value → String
  | null | array _ | object _ => "object"
  | v => v.typeName

mutual

/-- A value as text: arrays are joined by commas with nothing for nullish items. -/
def text : Value → String
  | .undefined => "undefined"
  | .null => "null"
  | .boolean b => if b then "true" else "false"
  | .number x => numberText x
  | .string s => s
  | .array items => ",".intercalate (itemTexts items)
  | .object _ => "[object Object]"
  | .function source => source
  | .helper h => "function " ++ h.name ++ "() \x7b [native code] \x7d"

/-- The texts of the items of an array. -/
def itemTexts : List Value → List String
  | [] => []
  | v :: rest => (if v.isNullish then "" else text v) :: itemTexts rest

end

mutual

/-- Whether two values are the same in all their parts. Not-a-number differs from itself and minus
zero is zero. -/
def same : Value → Value → Bool
  | .undefined, .undefined | .null, .null => true
  | .boolean a, .boolean b => a == b
  | .number a, .number b => a == b
  | .string a, .string b => a == b
  | .array a, .array b => sameItems a b
  | .object ⟨a⟩, .object ⟨b⟩ => sameFields a b
  | .function a, .function b => a == b
  | .helper a, .helper b => a == b
  | _, _ => false

/-- Whether two lists of values are the same. -/
def sameItems : List Value → List Value → Bool
  | [], [] => true
  | a :: as, b :: bs => same a b && sameItems as bs
  | _, _ => false

/-- Whether two lists of fields are the same, in the same order. -/
def sameFields : List (String × Value) → List (String × Value) → Bool
  | [], [] => true
  | (k, a) :: as, (l, b) :: bs => k == l && same a b && sameFields as bs
  | _, _ => false

end

/-- Equality as a literal can ask for it: arrays and objects equal nothing. -/
def identical : Value → Value → Bool
  | array _, _ | object _, _ => false
  | a, b => same a b

/-- The number a value stands for in arithmetic. -/
def toNumber : Value → Float
  | null => 0.0
  | boolean b => if b then 1.0 else 0.0
  | number x => x
  | string s =>
    let cs := Text.trimList s.toList
    if cs.isEmpty then 0.0 else (Number.ofText? cs).getD Number.notANumber
  | _ => Number.notANumber

/-- Whether addition joins a value as text. -/
def addsAsText : Value → Bool
  | string _ | array _ | object _ | function _ | helper _ => true
  | _ => false

/-- The sum of two values: of their texts if one of them adds as text, else of their numbers. -/
def add (a b : Value) : Value :=
  if a.addsAsText || b.addsAsText then string (a.text ++ b.text)
  else number (a.toNumber + b.toNumber)

end Value

end CommandFiles
