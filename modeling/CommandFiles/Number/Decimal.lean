/-!
# Reading decimals

The value of written decimal digits: the double nearest to `digits · 10^exponent`, ties to even.
Exponents far outside the range of doubles are cut short, because the power of ten would be built.
-/

namespace CommandFiles.Number

/-- The value of a digit in bases up to sixteen; other characters count as zero. -/
def digitValue (c : Char) : Nat :=
  if c.isDigit then c.toNat - 48
  else if 97 ≤ c.toNat && c.toNat ≤ 102 then c.toNat - 87
  else if 65 ≤ c.toNat && c.toNat ≤ 70 then c.toNat - 55
  else 0

/-- The number that digits in a base stand for. -/
def ofDigits (base : Nat) (ds : List Char) : Nat :=
  ds.foldl (fun n c => n * base + digitValue c) 0

/-- Whether a character is a hexadecimal digit. -/
def isHexDigit (c : Char) : Bool :=
  c.isDigit || (97 ≤ c.toNat && c.toNat ≤ 102) || (65 ≤ c.toNat && c.toNat ≤ 70)

/-- Positive infinity. -/
def infinity : Float := Float.ofBits 0x7FF0000000000000

/-- The canonical not-a-number. -/
def notANumber : Float := Float.ofBits 0x7FF8000000000000

/-- The double nearest to `mantissa · 10^exponent`. -/
def scaled (mantissa : Nat) (exponent : Int) : Float :=
  if mantissa = 0 then 0.0
  else
    let top : Int := (Nat.toDigits 10 mantissa).length + exponent
    if 400 < top then infinity
    else if top < -400 then 0.0
    else if 0 ≤ exponent then Float.ofScientific mantissa false exponent.toNat
    else Float.ofScientific mantissa true (-exponent).toNat

/-- The double nearest to a natural number. -/
def ofNat (n : Nat) : Float := scaled n 0

/-- The double nearest to `whole.fraction · 10^exponent`. -/
def ofParts (whole fraction : List Char) (exponent : Int) : Float :=
  scaled (ofDigits 10 (whole ++ fraction)) (exponent - fraction.length)

/-- Splits off an exponent: `e` or `E`, an optional sign and at least one digit. Anything else gives
none. -/
def exponentPart? : List Char → Option (Int × List Char)
  | e :: rest =>
    if e == 'e' || e == 'E' then
      let (negative, digits) : Bool × List Char := match rest with
        | '-' :: r => (true, r)
        | '+' :: r => (false, r)
        | r => (false, r)
      match digits.takeWhile Char.isDigit with
      | [] => none
      | ds =>
        let n : Int := ofDigits 10 ds
        some (if negative then -n else n, digits.dropWhile Char.isDigit)
    else none
  | [] => none

/-- Reads a whole text as an unsigned decimal: digits with an optional point, at least one digit,
and an optional exponent. -/
def ofUnsigned? (cs : List Char) : Option Float :=
  let whole := cs.takeWhile Char.isDigit
  let rest := cs.dropWhile Char.isDigit
  let (fraction, rest) : List Char × List Char := match rest with
    | '.' :: r => (r.takeWhile Char.isDigit, r.dropWhile Char.isDigit)
    | r => ([], r)
  if whole.isEmpty && fraction.isEmpty then none
  else match rest with
    | [] => some (ofParts whole fraction 0)
    | r => match exponentPart? r with
      | some (e, []) => some (ofParts whole fraction e)
      | _ => none

/-- Reads a whole text as a decimal with an optional sign. The words `inf`, `infinity` and `nan`
are read too, in any case. -/
def ofText? (cs : List Char) : Option Float :=
  let (negative, body) : Bool × List Char := match cs with
    | '-' :: r => (true, r)
    | '+' :: r => (false, r)
    | r => (false, r)
  let value := match String.ofList (body.map Char.toLower) with
    | "inf" | "infinity" => some infinity
    | "nan" => some notANumber
    | _ => ofUnsigned? body
  value.map fun v => if negative then -v else v

end CommandFiles.Number
