import ItemBudget.Decimal.Basic

/-!
# Reading a double

The text of a double is an optional sign followed by `inf`, `infinity` or `nan` in any case, or by
digits with at most one point among or around them and an optional exponent. At least one digit
stands before the exponent, and at least one in it. The value is the nearest double; a value beyond
the range is an infinity.
-/

namespace ItemBudget.Decimal

/-- The exponent after the mark `e`: an optional sign and digits, and nothing after them. -/
def readExponent? (cs : List Char) : Option Int :=
  let (negative, ds) : Bool × List Char := match cs with
    | '+' :: r => (false, r)
    | '-' :: r => (true, r)
    | r => (false, r)
  if ds.isEmpty || !ds.all Char.isDigit then none
  else some (if negative then -(ofDigits ds : Int) else ofDigits ds)

/-- The number that an unsigned text writes. -/
def readUnsigned? (cs : List Char) : Option Decimal :=
  let whole := cs.takeWhile Char.isDigit
  let (fraction, rest) : List Char × List Char := match cs.dropWhile Char.isDigit with
    | '.' :: r => (r.takeWhile Char.isDigit, r.dropWhile Char.isDigit)
    | r => ([], r)
  if whole.isEmpty && fraction.isEmpty then none
  else match rest with
    | [] => some (ofParts whole fraction 0)
    | c :: r =>
      if c = 'e' || c = 'E' then (readExponent? r).map (ofParts whole fraction) else none

/-- The double that an unsigned text writes. -/
def readMagnitude? (cs : List Char) : Option Float :=
  match readUnsigned? cs with
  | some d => some d.toFloat
  | none =>
    let word := String.ofList (cs.map Char.toLower)
    if word = "inf" || word = "infinity" then some (infinity false)
    else if word = "nan" then some nan
    else none

/-- The double that a text writes, or nothing when the whole text is not the text of a double. -/
def readFloat? (cs : List Char) : Option Float :=
  match cs with
  | '+' :: r => readMagnitude? r
  | '-' :: r => (readMagnitude? r).map (-·)
  | r => readMagnitude? r

end ItemBudget.Decimal
