import ItemBudget.Decimal.Binary
import ItemBudget.Decimal.Shortest

/-!
# Number texts

Two layouts of the shortest digits. `plain` is positional whatever the magnitude, without a point
for whole numbers: `15`, `0.1`, `-0`. `fixed` rounds the exact value to a number of places, a half
to the even neighbour, and writes all of them: `12.50`. Infinities and NaN are words in both.
-/

namespace ItemBudget.Decimal

/-- The sign of a number text. -/
def signText (negative : Bool) : List Char :=
  if negative then ['-'] else []

/-- The digits of a decimal number in positional notation, without zeros that carry nothing. -/
def positional (d : Decimal) : List Char :=
  let ds := digitsOf d.digits
  let point : Int := ds.length + d.exponent
  if 0 ≤ d.exponent then ds ++ List.replicate d.exponent.toNat '0'
  else if 0 < point then ds.take point.toNat ++ '.' :: ds.drop point.toNat
  else '0' :: '.' :: (List.replicate (-point).toNat '0' ++ ds)

/-- A word for NaN or an infinity; a finite double by its sign, mantissa and exponent. -/
def write (x : Float) (finite : Nat → Int → List Char) : String :=
  String.ofList <| match reading x with
    | .nan => ['N', 'a', 'N']
    | .infinite negative => signText negative ++ ['i', 'n', 'f']
    | .finite negative m q => signText negative ++ finite m q

/-- The fewest digits that read back, written positionally. -/
def plain (x : Float) : String :=
  write x fun m q => if m = 0 then ['0'] else (shortest .up m q).positional

/-- The quotient of two numbers, rounded to the nearest, a half to the even neighbour. -/
def divNearest (a b : Nat) : Nat :=
  let q := a / b
  let past := 2 * (a % b)
  if past < b then q else if b < past then q + 1 else if q % 2 = 0 then q else q + 1

/-- The exact value rounded to the given number of places, all of them written. -/
def fixed (places : Nat) (x : Float) : String :=
  write x fun m q =>
    let n := divNearest (m * Nat.pow 2 q.toNat * Nat.pow 10 places) (Nat.pow 2 (-q).toNat)
    let ds := digitsOf n
    let ds := List.replicate (places + 1 - ds.length) '0' ++ ds
    ds.take (ds.length - places) ++ '.' :: ds.drop (ds.length - places)

end ItemBudget.Decimal
