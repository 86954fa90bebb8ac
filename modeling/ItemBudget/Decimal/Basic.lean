/-!
# Decimal numbers

A decimal number is `digits · 10 ^ exponent`. Digit strings are read by `ofDigits`, and `toFloat`
gives the nearest double, ties to the even mantissa. A magnitude beyond the range of doubles is an
infinity or a zero, and is settled from the number of digits alone, so that a huge exponent costs
nothing.
-/

namespace ItemBudget

/-- The value `digits · 10 ^ exponent`. -/
structure Decimal where
  digits : Nat
  exponent : Int
deriving DecidableEq, Repr

namespace Decimal

/-- The value of a decimal digit. -/
def digitValue (c : Char) : Nat := c.toNat - '0'.toNat

/-- The number that a string of digits writes. -/
def ofDigits (ds : List Char) : Nat :=
  ds.foldl (fun n c => 10 * n + digitValue c) 0

/-- The digits of a number, without leading zeros; zero is one digit. -/
def digitsOf (n : Nat) : List Char := Nat.toDigits 10 n

/-- The decimal number that `whole.fraction` writes, moved by `exponent` places. -/
def ofParts (whole fraction : List Char) (exponent : Int) : Decimal :=
  ⟨ofDigits (whole ++ fraction), exponent - fraction.length⟩

/-- The infinite double of a sign. -/
def infinity (negative : Bool) : Float :=
  if negative then -(1.0 / 0.0) else 1.0 / 0.0

/-- The double that is not a number. -/
def nan : Float := 0.0 / 0.0

/-- The double nearest to the number. -/
def toFloat (d : Decimal) : Float :=
  if d.digits = 0 then 0.0
  else
    let magnitude := d.exponent + (digitsOf d.digits).length
    if magnitude > 310 then infinity false
    else if magnitude < -330 then 0.0
    else if d.exponent < 0 then Float.ofScientific d.digits true d.exponent.natAbs
    else Float.ofScientific d.digits false d.exponent.natAbs

/-- `x` with the sign changed when `negative`. -/
def signed (negative : Bool) (x : Float) : Float :=
  if negative then -x else x

end Decimal

end ItemBudget
