import CommandFiles.Number.Decimal

/-!
# Doubles as integers times powers of two

A finite double is `± mantissa · 2^exponent`. Exact questions about doubles (is it integral, what is
the remainder, which decimals round to it) are questions about these integers.
-/

namespace CommandFiles.Number

/-- A double taken apart. -/
inductive Binary where
  | notANumber
  | infinite (negative : Bool)
  | finite (negative : Bool) (mantissa : Nat) (exponent : Int)
  deriving DecidableEq, Repr

/-- Takes a double apart by its bits. -/
def Binary.ofFloat (x : Float) : Binary :=
  let bits : Nat := x.toBits.toNat
  let negative := bits / Nat.pow 2 63 = 1
  let biased : Nat := bits / Nat.pow 2 52 % 2048
  let fraction : Nat := bits % Nat.pow 2 52
  if biased = 2047 then if fraction = 0 then .infinite negative else .notANumber
  else if biased = 0 then .finite negative fraction (-1074)
  else .finite negative (fraction + Nat.pow 2 52) ((biased : Int) - 1075)

/-- The integer that a finite double is, if it is one. -/
def Binary.toInt? : Binary → Option Int
  | .finite negative m e =>
    let size : Option Nat :=
      if 0 ≤ e then some (m * Nat.pow 2 e.toNat)
      else if m % Nat.pow 2 (-e).toNat = 0 then some (m / Nat.pow 2 (-e).toNat) else none
    size.map fun n => if negative then -(n : Int) else n
  | _ => none

/-- The integer that a double is, if it is one. -/
def toInt? (x : Float) : Option Int := (Binary.ofFloat x).toInt?

/-- Builds the double `± mantissa · 2^exponent` for a mantissa of at most 53 bits and an exponent of
at least -1074. -/
def compose (negative : Bool) (mantissa : Nat) (exponent : Int) : Float :=
  let sign := if negative then Nat.pow 2 63 else 0
  if mantissa = 0 then Float.ofBits (UInt64.ofNat sign)
  else
    let room : Int := min (52 - Nat.log2 mantissa) (exponent + 1074)
    let m := mantissa * Nat.pow 2 room.toNat
    let e := exponent - room
    if m < Nat.pow 2 52 then Float.ofBits (UInt64.ofNat (sign + m))
    else Float.ofBits (UInt64.ofNat (sign + (e + 1075).toNat * Nat.pow 2 52 + (m - Nat.pow 2 52)))

/-- The remainder of a division whose quotient is cut toward zero; it has the sign of the dividend
and is always exact. -/
def remainder (x y : Float) : Float :=
  match Binary.ofFloat x, Binary.ofFloat y with
  | .finite negative m e, .finite _ n f =>
    if n = 0 then notANumber
    else
      let low := min e f
      let rest := (m * Nat.pow 2 (e - low).toNat) % (n * Nat.pow 2 (f - low).toNat)
      compose negative rest low
  | .finite _ _ _, .infinite _ => x
  | _, _ => notANumber

end CommandFiles.Number
