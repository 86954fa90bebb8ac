import ItemBudget.Json.Node

/-!
# What JSON numerals mean

A whole numeral that fits 64 bits is that integer, signed or not; a negative zero and every other
numeral is a double. A double is computed from the digits that fit a 64-bit significand, scaled by
one power of ten, so its last bit is not always the nearest one. A numeral beyond the largest double
means nothing.

The standard leaves open which numbers a reader keeps and how it rounds. What stands here is a
transcription of the reader of the JSON package that the workspace builds with: the 64 bits of whole
numbers and of the significand, the digits that are left out of it and the steps of the scaling are
those of that package.
-/

namespace ItemBudget.Json

open Decimal (Numeral)

/-- A number that a numeral means. -/
inductive Number where
  /-- A whole number from 0 to 2^64 - 1. -/
  | natural (n : Nat)
  /-- The whole number `-n`, not below -2^63. -/
  | negative (n : Nat)
  | float (x : Float)

/-- The largest significand. -/
def maxSignificand : Nat := Nat.pow 2 64 - 1

/-- The digits that fit the significand, after those already in it, and how many do not: the first
digit that does not fit and all after it. -/
def fill (significand : Nat) : List Char → Nat × List Char
  | [] => (significand, [])
  | c :: r =>
    let next := 10 * significand + Decimal.digitValue c
    if next ≤ maxSignificand then fill next r else (significand, c :: r)

/-- A power of ten, as the nearest double. -/
def powerOfTen (n : Nat) : Float := Decimal.toFloat ⟨1, n⟩

/-- `x / 10 ^ e`, by steps of at most `10 ^ 308`. -/
def scaleDown (x : Float) (e : Nat) : Float :=
  if e ≤ 308 then x / powerOfTen e
  else if x == 0.0 then x
  else scaleDown (x / powerOfTen 308) (e - 308)
termination_by e

/-- `x · 10 ^ e`, unless it is too large. -/
def scaleUp? (x : Float) (e : Nat) : Option Float :=
  if e ≤ 308 then
    let y := x * powerOfTen e
    if y.isInf then none else some y
  else if x == 0.0 then some x
  else none

/-- The double that a numeral means. -/
def float? (n : Numeral) : Option Float :=
  let (significand, past) := fill 0 n.whole
  let (significand, unused) := fill significand n.fraction
  let exponent : Int :=
    past.length - (n.fraction.length - unused.length : Nat) + n.exponent.getD 0
  let x := (UInt64.ofNat significand).toFloat
  let y := if 0 ≤ exponent then scaleUp? x exponent.toNat
    else some (scaleDown x (-exponent).toNat)
  y.map (Decimal.signed n.negative)

/-- What a numeral means. -/
def number? (n : Numeral) : Option Number :=
  let value := Decimal.ofDigits n.whole
  if n.isWhole && !n.negative && value ≤ maxSignificand then some (.natural value)
  else if n.isWhole && n.negative && 0 < value && value ≤ Nat.pow 2 63 then some (.negative value)
  else (float? n).map .float

/-- A number as a double. -/
def Number.toFloat : Number → Float
  | .natural n => (UInt64.ofNat n).toFloat
  | .negative n => -(UInt64.ofNat n).toFloat
  | .float x => x

/-- The node of a number. -/
def Number.node : Number → Node
  | .natural n => .ofNat n
  | .negative n => .number { Numeral.ofNat n with negative := true }
  | .float x => .ofFloat x

end ItemBudget.Json
