import ItemBudget.Decimal.Layout
import ItemBudget.Decimal.Reader
import ItemBudget.Text.Blank

/-!
# Costs

A cost is a double kept at two decimal places: `round2` rounds to a hundredth, a half toward
positive infinity, and `costText` shows it without zeros that carry nothing. A bound of an attribute
is text; `boundValue` is the cost rule's view of it.
-/

namespace ItemBudget

/-- Rounds to two places, a half toward positive infinity. An infinity and NaN stay. -/
def round2 (x : Float) : Float :=
  if x.isFinite then
    let scaled := x * 100.0
    let floor := Decimal.wholePart scaled
    (if 0.5 ≤ scaled - floor then floor + 1.0 else floor) / 100.0
  else x

/-- The number that a bound's text writes, blanks around it aside. Text that writes no finite
number counts as 0. -/
def boundValue (text : String) : Float :=
  match Decimal.readFloat? (Text.trimChars text.toList) with
  | some x => if x.isFinite then x else 0.0
  | none => 0.0

/-- A cost with at most two places and no trailing zero; never the text of a negative zero. -/
def costText (x : Float) : String :=
  let text := Text.dropEnd '.' (Text.dropEnd '0' (Decimal.fixed 2 (round2 x)).toList)
  if text = ['-', '0'] then "0" else String.ofList text

end ItemBudget
