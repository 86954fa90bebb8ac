import ItemBudget.Time.Calendar

/-!
# Instants

An instant is a second counted from 1970-01-01T00:00:00Z and a part of it in nanoseconds. A part of
a whole second or more is inside the leap second that follows. The text of an instant is its date
and time in UTC; the fraction has no digits, or three, six or nine, as many as it needs.
-/

namespace ItemBudget.Time

/-- An instant. -/
structure Instant where
  /-- The seconds since 1970-01-01T00:00:00Z. -/
  seconds : Int
  /-- The nanoseconds in that second; from 10^9 on, those of the leap second after it. -/
  nanos : Nat
deriving DecidableEq, Repr, Inhabited

/-- A number in at least `width` digits. -/
def padded (width n : Nat) : List Char :=
  let ds := Nat.toDigits 10 n
  List.replicate (width - ds.length) '0' ++ ds

/-- A year in four digits; a year before 0 or after 9999 has a sign. -/
def yearText (year : Int) : List Char :=
  if 0 ≤ year && year ≤ 9999 then padded 4 year.toNat
  else (if year < 0 then '-' else '+') :: padded 4 year.natAbs

/-- The fraction of a second, in thousandths, millionths or billionths. -/
def fractionText (nanos : Nat) : List Char :=
  if nanos = 0 then []
  else if nanos % 1000000 = 0 then '.' :: padded 3 (nanos / 1000000)
  else if nanos % 1000 = 0 then '.' :: padded 6 (nanos / 1000)
  else '.' :: padded 9 nanos

/-- The seconds of a day. -/
def secondsPerDay : Nat := 86400

/-- The characters of an instant, with `zone` as the text of UTC. -/
def Instant.render (zone : List Char) (t : Instant) : List Char :=
  let date := Date.ofDays (t.seconds / secondsPerDay)
  let second := (t.seconds % secondsPerDay).toNat
  let (leap, nanos) := if t.nanos < 1000000000 then (0, t.nanos) else (1, t.nanos - 1000000000)
  yearText date.year ++ '-' :: padded 2 date.month ++ '-' :: padded 2 date.day
    ++ 'T' :: padded 2 (second / 3600) ++ ':' :: padded 2 (second / 60 % 60)
    ++ ':' :: padded 2 (second % 60 + leap) ++ fractionText nanos ++ zone

/-- The text of an instant with the offset `+00:00`. -/
def Instant.text (t : Instant) : String := String.ofList (t.render ['+', '0', '0', ':', '0', '0'])

/-- The text of an instant with the offset `Z`. -/
def Instant.zuluText (t : Instant) : String := String.ofList (t.render ['Z'])

end ItemBudget.Time
