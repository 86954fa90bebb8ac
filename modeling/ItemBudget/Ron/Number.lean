import ItemBudget.Decimal.Reader
import ItemBudget.Text.Class
import ItemBudget.Text.Taken

/-!
# RON numbers

A double is written with digits, a point, an exponent and a sign, or as `inf` or `NaN`; a whole
number in base ten, or in another one after `0x`, `0o` or `0b`. Underscores may stand between
digits, and a suffix may name the type. Two points end a number: they are the mark of a range.
-/

namespace ItemBudget.Ron

open Text (Taken)

/-- A character that can stand in a run of number characters. -/
def isNumberChar (c : Char) : Bool :=
  c.isAlphanum || c = '_' || c = '.' || c = '+' || c = '-'

/-- A character that can start a run of number characters. -/
def startsNumber (c : Char) : Bool := c.isDigit || c = '.' || c = '+' || c = '-'

/-! ## Doubles -/

/-- A character of a double's digits, point, sign or exponent. -/
def isFloatChar (c : Char) : Bool :=
  c.isDigit || c = 'e' || c = 'E' || c = '.' || c = '+' || c = '-' || c = '_'

/-- The text without underscores. One may stand after a digit, after the mark of an exponent, and
after another underscore; not at the front and not after a point. -/
def dropUnderscores? (allowed : Bool) : List Char → Option (List Char)
  | [] => some []
  | c :: r =>
    if c = '_' then if allowed then dropUnderscores? allowed r else none
    else
      let next := if c.isDigit || c = 'e' || c = 'E' then true else if c = '.' then false else allowed
      (dropUnderscores? next r).map (c :: ·)

/-- The width that a suffix names. -/
inductive FloatSuffix where
  | none | single | double
deriving DecidableEq

/-- The double that a word after an optional sign writes. -/
def floatOfWord? (negative : Bool) (word : String) : Option (Float × FloatSuffix) :=
  let inf := Decimal.infinity negative
  [("inf", inf, FloatSuffix.none), ("inff32", inf, .single), ("inff64", inf, .double),
    ("NaN", Decimal.nan, .none), ("NaNf32", Decimal.nan, .single),
    ("NaNf64", Decimal.nan, .double)].lookup word

/-- The double that a run of number characters writes, and its suffix. -/
def suffixedFloat? (run : List Char) : Option (Float × FloatSuffix) :=
  let (negative, unsigned) : Bool × List Char := match run with
    | '-' :: r => (true, r)
    | '+' :: r => (false, r)
    | r => (false, r)
  match floatOfWord? negative (String.ofList unsigned) with
  | some x => some x
  | none =>
    let digits := run.takeWhile isFloatChar
    let suffix := String.ofList (run.dropWhile isFloatChar)
    match [("", FloatSuffix.none), ("f32", .single), ("f64", .double)].lookup suffix with
    | none => none
    | some s => do
      let plain ← dropUnderscores? false digits
      return (← Decimal.readFloat? plain, s)

/-- The double that a run of number characters writes. -/
def float? (run : List Char) : Option Float :=
  match suffixedFloat? run with
  | some (x, s) => if s = .single then none else some x
  | none => none

/-! ## Whole numbers -/

/-- A character of a whole number's digits. -/
def isIntegerChar (c : Char) : Bool := (Text.hexValue? c).isSome || c = '_'

/-- The number that digits of a base write. Underscores are passed over, but one cannot come
first. -/
def ofBase? (base : Nat) (ds : List Char) : Option Nat :=
  if ds.isEmpty || ds.head? = some '_' then none
  else (ds.filter (· ≠ '_')).foldlM (fun n c =>
    ((Text.hexValue? c).filter (· < base)).map (base * n + ·)) 0

/-- The base that the front of an unsigned number names, and the rest of the number. -/
def baseOf : List Char → Nat × List Char
  | '0' :: 'b' :: r => (2, r)
  | '0' :: 'o' :: r => (8, r)
  | '0' :: 'x' :: r => (16, r)
  | r => (10, r)

/-- The suffixes of whole numbers: a width in bits, and whether negative numbers are among them. -/
def integerSuffixes : List (String × Nat × Bool) :=
  [("i8", 8, true), ("i16", 16, true), ("i32", 32, true), ("i64", 64, true), ("u8", 8, false),
    ("u16", 16, false), ("u32", 32, false), ("u64", 64, false)]

/-- A number fits a width. -/
def fits (bits : Nat) (signed : Bool) (n : Int) : Bool :=
  let half : Int := Nat.pow 2 (bits - 1)
  if signed then -half ≤ n && n < half else 0 ≤ n && n < 2 * half

/-- The whole number that a run of number characters writes, and its suffix; none when the suffix
names a type without that number. -/
def suffixedInteger? (run : List Char) : Option (Int × Option String) :=
  let (negative, unsigned) : Bool × List Char := match run with
    | '-' :: r => (true, r)
    | '+' :: r => (false, r)
    | r => (false, r)
  let (base, ds) := baseOf unsigned
  let suffix := String.ofList (ds.dropWhile isIntegerChar)
  match ofBase? base (ds.takeWhile isIntegerChar) with
  | none => none
  | some n =>
    let n : Int := if negative then -n else n
    if suffix.isEmpty then some (n, none)
    else match integerSuffixes.lookup suffix with
      | some (bits, signed) => if fits bits signed n then some (n, some suffix) else none
      | none => none

/-- The natural number of a width that a run of number characters writes. A suffix names that
width. -/
def natural? (bits : Nat) (run : List Char) : Option Nat :=
  match suffixedInteger? run with
  | some (n, suffix) =>
    if fits bits false n && suffix.all (integerSuffixes.lookup · = some (bits, false)) then
      some n.toNat
    else none
  | none => none

/-- The run of number characters writes a number of some type. -/
def isNumber (run : List Char) : Bool :=
  (suffixedFloat? run).isSome
    || (suffixedInteger? run).any fun n => fits 64 false n.1 || fits 64 true n.1

/-! ## The extent of a number -/

/-- The number characters at the front of a text, as far as two points that follow each other, and
what follows them. -/
def spanNumber : (cs : List Char) → List Char × { r : List Char // r.length ≤ cs.length }
  | [] => ([], ⟨[], Nat.le_refl _⟩)
  | '.' :: '.' :: r => ([], ⟨'.' :: '.' :: r, Nat.le_refl _⟩)
  | c :: r =>
    if isNumberChar c then
      let p := spanNumber r
      (c :: p.1, ⟨p.2.1, Nat.le_succ_of_le p.2.2⟩)
    else ([], ⟨c :: r, Nat.le_refl _⟩)

/-- The number characters at the front of a text, when they write a number. A word is a number when
no identifier goes on from it. -/
def readNumber? (cs : List Char) : Option (Taken (List Char) cs) :=
  match cs with
  | [] | '.' :: '.' :: _ => none
  | c :: r =>
    let (run, ⟨rest, h⟩) := spanNumber r
    let t : Taken (List Char) (c :: r) := ⟨c :: run, rest, Nat.lt_succ_of_le h⟩
    let isOne :=
      if startsNumber c then isNumber t.value
      else (floatOfWord? false (String.ofList t.value)).isSome
        && !rest.head?.any Text.continuesIdentifier
    if isOne then some t else none

end ItemBudget.Ron
