import ItemBudget.Decimal.Binary
import ItemBudget.Decimal.Shortest

/-!
# Written numbers

A numeral is the parts of a number as it is written: a sign, digits, digits after a point, an
exponent. `ofFloat?` lays out the shortest digits of a double: positionally when the first digit
stands for a power of ten from the least one of the style to `10 ^ 15`, with one digit before the
point and an exponent otherwise.
-/

namespace ItemBudget.Decimal

/-- The parts of a written number. Without digits in `fraction` there is no point. -/
structure Numeral where
  negative : Bool
  whole : List Char
  fraction : List Char
  exponent : Option Int
deriving DecidableEq, Repr

/-- How a format writes doubles. -/
structure Style where
  /-- Which of two equally near digit strings is taken. -/
  tie : Tie
  /-- The least power of ten of a first digit that is written positionally. -/
  least : Int
  /-- A positive exponent has a sign. -/
  plus : Bool
deriving DecidableEq, Repr

namespace Numeral

/-- The numeral of a natural number. -/
def ofNat (n : Nat) : Numeral := ⟨false, digitsOf n, [], none⟩

/-- The numeral is written as a whole number. -/
def isWhole (n : Numeral) : Bool := n.fraction.isEmpty && n.exponent.isNone

/-- The layout of a decimal number that is not zero, positional from `10 ^ least` on. -/
def ofDecimal (least : Int) (negative : Bool) (d : Decimal) : Numeral :=
  let ds := digitsOf d.digits
  let lead : Int := ds.length + d.exponent - 1
  if lead < least || 15 < lead then ⟨negative, ds.take 1, ds.drop 1, some lead⟩
  else if 0 ≤ d.exponent then ⟨negative, ds ++ List.replicate d.exponent.toNat '0', ['0'], none⟩
  else if 0 ≤ lead then ⟨negative, ds.take (lead + 1).toNat, ds.drop (lead + 1).toNat, none⟩
  else ⟨negative, ['0'], List.replicate (-lead - 1).toNat '0' ++ ds, none⟩

/-- The numeral of a finite double: the fewest digits that read back. -/
def ofFloat? (style : Style) (x : Float) : Option Numeral :=
  match reading x with
  | .finite negative m q =>
    some (if m = 0 then ⟨negative, ['0'], ['0'], none⟩
      else ofDecimal style.least negative (shortest style.tie m q))
  | _ => none

/-- The text of an exponent: `e`, a sign, digits. A positive exponent has a sign when `plus`. -/
def exponentText (plus : Bool) (e : Int) : List Char :=
  'e' :: ((if e < 0 then ['-'] else if plus then ['+'] else []) ++ digitsOf e.natAbs)

/-- The text of a numeral; a positive exponent has a sign when `plus`. -/
def render (plus : Bool) (n : Numeral) : List Char :=
  (if n.negative then ['-'] else []) ++ n.whole
    ++ (if n.fraction.isEmpty then [] else '.' :: n.fraction)
    ++ (n.exponent.elim [] (exponentText plus))

end Numeral

end ItemBudget.Decimal
