/-!
# What a double stands for

A finite double is a sign and an exact magnitude `mantissa · 2 ^ exponent`. Everything that is
written or rounded exactly goes through this view: `Float.reading` decodes, `Float.wholePart`
rounds toward negative infinity. `Float.rank` puts all doubles in one order.
-/

namespace ItemBudget.Decimal

/-- A double, read: not a number, an infinity, or a sign and `mantissa · 2 ^ exponent`. A zero has
mantissa 0; else the exponent is the least one of the format for that value. -/
inductive Reading where
  | nan
  | infinite (negative : Bool)
  | finite (negative : Bool) (mantissa : Nat) (exponent : Int)
deriving DecidableEq, Repr

/-- The least exponent of a double. -/
def minExponent : Int := -1074

/-- Decodes a double exactly. -/
def reading (x : Float) : Reading :=
  match x.toModel.unpack with
  | .notANumber => .nan
  | .infinity s => .infinite (s == .negative)
  | .zero s => .finite (s == .negative) 0 minExponent
  | .finite s m e _ => .finite (s == .negative) m e

/-- The greatest whole number that is at most `x`. A double without a fraction, an infinity and NaN
are their own whole part, so the sign of a zero stays. -/
def wholePart (x : Float) : Float :=
  match reading x with
  | .finite negative m e =>
    let unit := Nat.pow 2 (-e).toNat
    if m % unit = 0 then x
    else if negative then -Float.ofNat (m / unit + 1)
    else Float.ofNat (m / unit)
  | _ => x

/-- Where a double stands in the total order of all doubles: its bits as a number, and for a double
with a sign what they lack of all bits being set, below every double without one. -/
def rank (x : Float) : Int :=
  let bits := x.toBits.toNat
  if bits < Nat.pow 2 63 then bits else Nat.pow 2 63 - 1 - bits

end ItemBudget.Decimal
