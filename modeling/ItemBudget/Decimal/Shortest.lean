import ItemBudget.Decimal.Basic

/-!
# The fewest digits that read back

The reals that round to a double `m · 2 ^ q` form an interval around it: half a step on either
side, a quarter step below when the mantissa is the least of its binade, with its ends when the
mantissa is even. `shortest` takes the coarsest decimal grid that has a point in the interval, and
on it the point nearest to the double. Two points at the same distance are settled by a `Tie`.
All arithmetic is exact, in quarters of a step.
-/

namespace ItemBudget.Decimal

/-- Which of two equally near numbers is taken. -/
inductive Tie where
  /-- The larger. -/
  | up
  /-- The one with an even last digit. -/
  | even
deriving DecidableEq, Repr

/-- The numbers that round to a double, in units of a quarter of its step: the double is
`center · 2 ^ exponent`, and the interval reaches from `low` to `high`. -/
structure Interval where
  center : Nat
  low : Nat
  high : Nat
  exponent : Int
  /-- The ends belong to the interval. -/
  closed : Bool

/-- The numbers that round to `m · 2 ^ q`. -/
def interval (m : Nat) (q : Int) : Interval where
  center := 4 * m
  low := if m = Nat.pow 2 52 ∧ q > -1074 then 4 * m - 1 else 4 * m - 2
  high := 4 * m + 2
  exponent := q - 2
  closed := m % 2 = 0

/-- The point `d` of the grid with step `step / unit` lies in the interval. -/
def Interval.holds (i : Interval) (unit step d : Nat) : Bool :=
  if i.closed then i.low * unit ≤ d * step && d * step ≤ i.high * unit
  else i.low * unit < d * step && d * step < i.high * unit

/-- The point of the grid `10 ^ p` in the interval that is nearest to its center: of the center's
two neighbours on the grid, those in the interval, and of two the nearer. -/
def Interval.gridPoint? (tie : Tie) (i : Interval) (p : Int) : Option Nat :=
  let unit := Nat.pow 2 i.exponent.toNat * Nat.pow 10 (-p).toNat
  let step := Nat.pow 2 (-i.exponent).toNat * Nat.pow 10 p.toNat
  let below := i.center * unit / step
  let past := i.center * unit % step
  match i.holds unit step below, i.holds unit step (below + 1) with
  | false, false => none
  | true, false => some below
  | false, true => some (below + 1)
  | true, true =>
    if 2 * past < step then some below
    else if step < 2 * past then some (below + 1)
    else match tie with
      | .up => some (below + 1)
      | .even => some (if below % 2 = 0 then below else below + 1)

/-- The first grid from `10 ^ p` downward with a point in the interval. -/
def Interval.search (tie : Tie) (i : Interval) : (grids : Nat) → (p : Int) → Decimal
  | 0, p => ⟨0, p⟩
  | grids + 1, p =>
    match i.gridPoint? tie p with
    | some d => ⟨d, p⟩
    | none => i.search tie grids (p - 1)

/-- The decimal number with the fewest digits that reads back as `m · 2 ^ q`, and of those the
nearest. The search starts above the first digit, and seventeen digits always suffice. -/
def shortest (tie : Tie) (m : Nat) (q : Int) : Decimal :=
  let bits : Int := q + m.log2 + 1
  (interval m q).search tie 24 (bits * 30103 / 100000 + 2)

end ItemBudget.Decimal
