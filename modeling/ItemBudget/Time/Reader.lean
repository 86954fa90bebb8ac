import ItemBudget.Text.Blank
import ItemBudget.Time.Instant

/-!
# Reading an instant

The text of an instant is a date, a mark `T` or a blank, a time with an optional fraction, and an
offset. Blanks may stand between the parts. A month, a day and the parts of the time have one or two
digits, a year up to four or a sign and any number. The offset is `Z`, `UTC`, or a sign with hours
and minutes. The second 60 is the leap second. This is more than the standard for time stamps
allows: it transcribes the reader of the date package that the workspace builds with.
-/

namespace ItemBudget.Time

open Text (isBlank)

/-- A reader takes its part from the front of a text. -/
abbrev Reader (α : Type) := List Char → Option (α × List Char)

/-- Between one and `most` digits. -/
def readDigits (most : Nat) : Reader Nat := fun cs =>
  let ds := (cs.take most).takeWhile Char.isDigit
  if ds.isEmpty then none
  else some (ds.foldl (fun n c => 10 * n + (c.toNat - '0'.toNat)) 0, cs.drop ds.length)

/-- The text without the blanks at its front. -/
def dropBlanks (cs : List Char) : List Char := cs.dropWhile isBlank

/-- A number of one or two digits, blanks before it aside. -/
def readTwo : Reader Nat := fun cs => readDigits 2 (dropBlanks cs)

/-- A year, blanks before it aside. -/
def readYear : Reader Int := fun cs =>
  match dropBlanks cs with
  | '-' :: r => (readDigits r.length r).map fun p => (-(p.1 : Int), p.2)
  | '+' :: r => (readDigits r.length r).map fun p => ((p.1 : Int), p.2)
  | r => (readDigits 4 r).map fun p => ((p.1 : Int), p.2)

/-- A character, blanks before it aside. -/
def readMark (c : Char) : Reader Unit := fun cs =>
  match dropBlanks cs with
  | d :: r => if d = c then some ((), r) else none
  | [] => none

/-- The nanoseconds of a fraction. Digits after the ninth do not count. -/
def readFraction : Reader Nat := fun cs =>
  match cs with
  | '.' :: r => do
    let (n, rest) ← readDigits 9 r
    let width := r.length - rest.length
    return (n * Nat.pow 10 (9 - width), rest.dropWhile Char.isDigit)
  | r => some (0, r)

/-- Two digits. -/
def readPair : Reader Nat := fun cs =>
  match cs with
  | a :: b :: r =>
    if a.isDigit && b.isDigit then
      some (10 * (a.toNat - '0'.toNat) + (b.toNat - '0'.toNat), r)
    else none
  | _ => none

/-- An offset from UTC in seconds, blanks before it aside. -/
def readOffset : Reader Int := fun cs =>
  let hoursAndMinutes : Reader Int := fun cs => do
    let (h, r) ← readPair cs
    let (m, r) ← readPair (r.dropWhile fun c => c = ':' || isBlank c)
    if m < 60 then some (((3600 * h + 60 * m : Nat) : Int), r) else none
  match dropBlanks cs with
  | 'Z' :: r | 'z' :: r => some (0, r)
  | '+' :: r => hoursAndMinutes r
  | '-' :: r | '\u2212' :: r => (hoursAndMinutes r).map fun p => (-p.1, p.2)
  | u :: t :: c :: r =>
    if String.ofList ([u, t, c].map Char.toUpper) = "UTC" then some (0, r) else none
  | _ => none

/-- The years an instant can lie in, with a day to spare on either side. -/
def isYearInRange (year : Int) : Bool := -262143 ≤ year && year ≤ 262142

/-- The instant of a date, a time of day and an offset. -/
def ofParts? (date : Date) (hour minute second nanos : Nat) (offset : Int) : Option Instant :=
  if date.isValid && isYearInRange date.year && hour < 24 && minute < 60 && second ≤ 60
      && offset.natAbs < secondsPerDay then
    let (second, nanos) := if second = 60 then (59, nanos + 1000000000) else (second, nanos)
    let seconds := date.toDays * secondsPerDay + (3600 * hour + 60 * minute + second : Nat) - offset
    if isYearInRange (Date.ofDays (seconds / secondsPerDay)).year then some ⟨seconds, nanos⟩
    else none
  else none

/-- The instant that a text writes. -/
def Instant.ofText? (text : String) : Option Instant := do
  let (year, r) ← readYear text.toList
  let (_, r) ← readMark '-' r
  let (month, r) ← readTwo r
  let (_, r) ← readMark '-' r
  let (day, r) ← readTwo r
  let r ← match r with
    | c :: r => if c = 'T' || c = 't' || c = ' ' then some r else none
    | [] => none
  let (hour, r) ← readTwo r
  let (_, r) ← readMark ':' r
  let (minute, r) ← readTwo r
  let (_, r) ← readMark ':' r
  let (second, r) ← readTwo r
  let (nanos, r) ← readFraction r
  let (offset, r) ← readOffset r
  if (dropBlanks r).isEmpty then ofParts? ⟨year, month, day⟩ hour minute second nanos offset
  else none

end ItemBudget.Time
