import ItemBudget.Decimal.Layout

/-!
# Durations

A duration is a number of nanoseconds and holds less than `2 ^ 64` seconds. As seconds it is the sum
of two doubles, the whole seconds and the part of a second; seconds become a duration by rounding
the exact value to the nearest nanosecond, a half to the even one.
-/

namespace ItemBudget.Time

/-- A number of nanoseconds. -/
abbrev Nanos := Nat

/-- The nanoseconds of a second. -/
def nanosPerSecond : Nat := 1000000000

/-- The nanoseconds of a millisecond. -/
def nanosPerMilli : Nat := 1000000

/-- The whole milliseconds of a duration. -/
def millis (d : Nanos) : Nat := d / nanosPerMilli

/-- A duration in seconds. -/
def toSeconds (d : Nanos) : Float :=
  Float.ofNat (d / nanosPerSecond)
    + Float.ofNat (d % nanosPerSecond) / Float.ofNat nanosPerSecond

/-- The seconds from which on there is no duration. -/
def secondsLimit : Nat := Nat.pow 2 64

/-- The duration nearest to a number of seconds. NaN, a number below 0 and one beyond the range have
none. -/
def ofSeconds? (x : Float) : Option Nanos :=
  match Decimal.reading x with
  | .finite negative m e =>
    let scaled := m * Nat.pow 2 e.toNat
    let unit := Nat.pow 2 (-e).toNat
    if (negative && m ≠ 0) || secondsLimit * unit ≤ scaled then none
    else some (Decimal.divNearest (scaled * nanosPerSecond) unit)
  | _ => none

end ItemBudget.Time
