import CommandFiles.Number.Binary

/-!
# Shortest decimals

The fewest decimal digits that read back as a given double, and of those the nearest. The reals that
round to `m · 2^q` form an interval, ends included exactly if `m` is even. Grids of one, two, …
seventeen digits are tried in turn; only the two neighbours of the value on a grid can be the answer.
-/

namespace CommandFiles.Number

/-- The decimal `digits · 10^exponent`. -/
structure Decimal where
  digits : Nat
  exponent : Int
  deriving DecidableEq, Repr

/-- A positive value and the ends of the interval that rounds to it, over a common denominator. -/
structure Interval where
  low : Nat
  value : Nat
  high : Nat
  denominator : Nat
  closed : Bool

/-- The interval of reals that round to `m · 2^q`. Below a power of two the doubles lie twice as
dense. -/
def Interval.ofBinary (m : Nat) (q : Int) : Interval :=
  let below := if m = Nat.pow 2 52 && -1074 < q then 1 else 2
  let s := q - 2
  let scale := Nat.pow 2 s.toNat
  ⟨(4 * m - below) * scale, 4 * m * scale, (4 * m + 2) * scale, Nat.pow 2 (-s).toNat, m % 2 = 0⟩

/-- Whether a grid point, given over the denominator, rounds to the value. -/
def Interval.holds (i : Interval) (scaleUp point : Nat) : Bool :=
  let low := i.low * scaleUp
  let high := i.high * scaleUp
  if i.closed then low ≤ point && point ≤ high else low < point && point < high

/-- The neighbour of the value on the grid of multiples of `10^unit` that rounds to it; of two the
nearer one, of two equally near the even one. -/
def Interval.onGrid? (i : Interval) (unit : Int) : Option Nat :=
  let scaleUp := Nat.pow 10 (-unit).toNat
  let step := i.denominator * Nat.pow 10 unit.toNat
  let value := i.value * scaleUp
  let a := value / step
  match i.holds scaleUp (a * step), i.holds scaleUp ((a + 1) * step) with
  | true, false => if a = 0 then none else some a
  | false, true => some (a + 1)
  | false, false => none
  | true, true =>
    if a = 0 then some 1
    else
      let twice := 2 * (value - a * step)
      if twice < step || (twice = step && a % 2 = 0) then some a else some (a + 1)

/-- The exponent of the first digit of a fraction. -/
def leadingExponent (numerator denominator : Nat) : Int :=
  let guess : Int := (Nat.toDigits 10 numerator).length - (Nat.toDigits 10 denominator).length
  let fits := numerator * Nat.pow 10 (-guess).toNat ≥ denominator * Nat.pow 10 guess.toNat
  if fits then guess else guess - 1

/-- Tries grids with one more digit each. -/
def Interval.search (i : Interval) (lead : Int) : Nat → Nat → Decimal
  | 0, n => ⟨i.value / i.denominator, n⟩
  | fuel + 1, n =>
    let unit := lead - n + 1
    match i.onGrid? unit with
    | some d => ⟨d, unit⟩
    | none => i.search lead fuel (n + 1)

/-- Drops the zeros at the end of the digits. -/
def Decimal.strip : Nat → Decimal → Decimal
  | 0, d => d
  | fuel + 1, d =>
    if d.digits ≠ 0 && d.digits % 10 = 0 then Decimal.strip fuel ⟨d.digits / 10, d.exponent + 1⟩
    else d

/-- The shortest decimal that reads back as `m · 2^q`, for a mantissa that is not zero. -/
def shortest (m : Nat) (q : Int) : Decimal :=
  let i := Interval.ofBinary m q
  (i.search (leadingExponent i.value i.denominator) 17 1).strip 20

/-! ## Layout -/

/-- Which decimals are written with all their places and how the others and whole numbers look.
With `point` being the number of digits before the decimal point, places are written out if
`after < point ≤ before`. -/
structure Layout where
  before : Option Int
  after : Option Int
  wholeSuffix : String

/-- Every place is written out, and whole numbers have no decimal point. -/
def Layout.plain : Layout := ⟨none, none, ""⟩

/-- Data files write at most sixteen places before the point and four zeros behind it, and mark
floating-point numbers that are whole. -/
def Layout.data : Layout := ⟨some 16, some (-5), ".0"⟩

/-- Writes a positive decimal. -/
def Layout.write (l : Layout) (d : Decimal) : String :=
  let ds := Nat.toDigits 10 d.digits
  let point : Int := ds.length + d.exponent
  let places := (l.before.all fun b => point ≤ b) && (l.after.all fun a => a < point)
  if places then
    if 0 ≤ d.exponent then
      String.ofList (ds ++ List.replicate d.exponent.toNat '0') ++ l.wholeSuffix
    else if 0 < point then
      String.ofList (ds.take point.toNat ++ '.' :: ds.drop point.toNat)
    else String.ofList ('0' :: '.' :: List.replicate (-point).toNat '0' ++ ds)
  else
    let e := point - 1
    let head := match ds with
      | [] => []
      | [d] => [d]
      | d :: rest => d :: '.' :: rest
    String.ofList head ++ (if 0 ≤ e then "e+" else "e-") ++ toString e.natAbs

/-- Writes a finite double; infinities and not-a-number are left to the caller. -/
def Layout.writeFloat (l : Layout) (x : Float) : String :=
  match Binary.ofFloat x with
  | .finite negative m q =>
    let sign := if negative then "-" else ""
    if m = 0 then sign ++ "0" ++ l.wholeSuffix else sign ++ l.write (shortest m q)
  | .infinite negative => if negative then "-inf" else "inf"
  | .notANumber => "NaN"

end CommandFiles.Number
